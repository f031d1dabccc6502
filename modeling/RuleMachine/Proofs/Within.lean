import RuleMachine.Proofs.Renaming.Texts
import RuleMachine.Proofs.Takings

/-!
# What values may mention

Values can mention machines and states, and whoever has a value can get at these. A computation with
values makes no new references: what comes out of it mentions only what went into it. So if some of
the machines and states are known to begin with, no others are found.

Reading a definition is a computation of that kind. What it gives mentions what the definition and
the streams did, and what is left in the streams was there before.

* `Value.Within`, `Streams.Within`: values that mention only what is known.
* `Reading.Drains`: readings that keep to what is known.
* `readTable_drains`: machines that are read from tables.
-/

namespace RuleMachine

variable {known : Value → Prop}

-- ---------------------------------------------------------------------------
-- Values
-- ---------------------------------------------------------------------------

namespace Entries

/-- Whether both sides of all entries are of some kind. -/
def Both (P : Value → Prop) (es : List (Value × Value)) : Prop := ∀ e ∈ es, P e.1 ∧ P e.2

end Entries

namespace Value

/-- Whether a value mentions only known machines and states. -/
def Within (known : Value → Prop) (v : Value) : Prop := ∀ r ∈ v.mentions, known r

theorem within_any (h : ∀ r, known r) (v : Value) : v.Within known := fun r _ => h r

/-- What several values mention is known if it is known for each of them. -/
theorem allWithin_iff {items : List Value} :
    (∀ r ∈ allMentions items, known r) ↔ ∀ v ∈ items, v.Within known := by
  simp only [mem_allMentions, Within]
  exact ⟨fun h v hv r hr => h r ⟨v, hv, hr⟩, fun h r ⟨v, hv, hr⟩ => h v hv r hr⟩

/-- What entries mention is known if it is known for their keys and their values. -/
theorem entriesWithin_iff {entries : List (Value × Value)} :
    (∀ r ∈ entryMentions entries, known r) ↔ Entries.Both (Within known) entries := by
  simp only [mem_entryMentions, Entries.Both, Within]
  exact ⟨fun h e he => ⟨fun r hr => h r ⟨e, he, .inl hr⟩, fun r hr => h r ⟨e, he, .inr hr⟩⟩,
    fun h r ⟨e, he, hr⟩ => hr.elim ((h e he).1 r) ((h e he).2 r)⟩

@[simp] theorem within_list {items : List Value} :
    (list items).Within known ↔ ∀ v ∈ items, v.Within known := allWithin_iff

@[simp] theorem within_tuple {items : List Value} :
    (tuple items).Within known ↔ ∀ v ∈ items, v.Within known := allWithin_iff

@[simp] theorem within_set {items : List Value} :
    (set items).Within known ↔ ∀ v ∈ items, v.Within known := allWithin_iff

/-- A map mentions what its keys and its values mention. -/
@[simp] theorem within_map {entries : List (Value × Value)} :
    (map entries).Within known ↔ Entries.Both (Within known) entries := entriesWithin_iff

@[simp] theorem within_state {s : StateRef} : (state s).Within known ↔ known (.state s) := by
  simp [Within, mentions]

@[simp] theorem within_machine {m : MachineRef} :
    (machine m).Within known ↔ known (.machine m) := by
  simp [Within, mentions]

@[simp] theorem within_null : null.Within known := fun _ h => absurd h List.not_mem_nil

@[simp] theorem within_text (s : String) : (text s).Within known :=
  fun _ h => absurd h List.not_mem_nil

@[simp] theorem within_bool (b : Bool) : (bool b).Within known :=
  fun _ h => absurd h List.not_mem_nil

@[simp] theorem within_int (i : Int) : (int i).Within known :=
  fun _ h => absurd h List.not_mem_nil

/-- The two parts of a pair are known if the pair is, whether it is a list or a tuple. -/
theorem Within.pair? {v : Value} (h : v.Within known) {e : Value × Value}
    (hPair : v.pair? = some e) : e.1.Within known ∧ e.2.Within known := by
  unfold Value.pair? at hPair
  split at hPair
  · obtain rfl := Option.some.inj hPair
    exact ⟨within_list.mp h _ (by simp), within_list.mp h _ (by simp)⟩
  · obtain rfl := Option.some.inj hPair
    exact ⟨within_tuple.mp h _ (by simp), within_tuple.mp h _ (by simp)⟩
  · cases hPair

end Value

namespace Entries

open Value (Within)

/-- Putting a known value under a known key leaves entries known. If there is an equal key already,
the old key stays and the old value goes. -/
theorem Both.insert {es : Entries} (h : Both (Within known) es) {key v : Value}
    (hKey : key.Within known) (hValue : v.Within known) :
    Both (Within known) (es.insert key v) := by
  induction es with
  | nil => exact List.forall_mem_singleton.mpr ⟨hKey, hValue⟩
  | cons first rest ih =>
    obtain ⟨hFirst, hRest⟩ := List.forall_mem_cons.mp h
    rw [Entries.insert]
    split
    · exact List.forall_mem_cons.mpr ⟨⟨hFirst.1, hValue⟩, hRest⟩
    · exact List.forall_mem_cons.mpr ⟨hFirst, ih hRest⟩

theorem Both.ofPairs {pairs : List (Value × Value)} (h : Both (Within known) pairs) :
    Both (Within known) (Entries.ofPairs pairs) :=
  List.foldlRecOn pairs _ (List.forall_mem_nil _) fun _ hEs e he =>
    Both.insert hEs (h e he).1 (h e he).2

/-- What holds of keys and values holds of keys. -/
theorem Both.keys {P : Value → Prop} {es : Entries} (h : Both P es) : ∀ v ∈ es.keys, P v := by
  intro v hv
  obtain ⟨e, he, rfl⟩ := List.mem_map.mp hv
  exact (h e he).1

theorem Both.get? {es : Entries} (h : Both (Within known) es) {key v : Value}
    (hFound : es.get? key = some v) : v.Within known := by
  induction es with
  | nil => cases hFound
  | cons first rest ih =>
    obtain ⟨hFirst, hRest⟩ := List.forall_mem_cons.mp h
    rw [Entries.get?] at hFound
    split at hFound
    · obtain rfl := Option.some.inj hFound
      exact hFirst.2
    · exact ih hRest hFound

/-- What is left of entries is no more than there was. -/
theorem Both.erase {P : Value → Prop} {es : Entries} (h : Both P es) (key : Value) :
    Both P (es.erase key) := by
  induction es with
  | nil => exact h
  | cons first rest ih =>
    obtain ⟨hFirst, hRest⟩ := List.forall_mem_cons.mp h
    rw [Entries.erase]
    split
    · exact hRest
    · exact List.forall_mem_cons.mpr ⟨hFirst, ih hRest⟩

/-- What is found under a key is known, and so is what is taken if there is nothing. -/
theorem Both.getD {es : Entries} (h : Both (Within known) es) (key : Value) {other : Value}
    (hOther : other.Within known) : ((es.get? key).getD other).Within known := by
  cases hFound : es.get? key with
  | none => exact hOther
  | some v => exact h.get? hFound

end Entries

-- ---------------------------------------------------------------------------
-- Streams
-- ---------------------------------------------------------------------------

/-- Whether what is left in streams mentions only what is known. -/
def Streams.Within (known : Value → Prop) (s : Streams) : Prop :=
  ∀ id, ∀ v ∈ s.rest id, v.Within known

namespace Streams.Within

variable {s : Streams}

/-- A new stream of known items. -/
theorem add (h : s.Within known) {items : List Value} (hItems : ∀ v ∈ items, v.Within known) :
    (s.add items).2.Within known := by
  intro id v hv
  change v ∈ ((s.left ++ [items])[id]?.getD []) at hv
  rcases Nat.lt_trichotomy id s.left.length with hOld | rfl | hBeyond
  · rw [List.getElem?_append_left hOld] at hv
    exact h id v hv
  · rw [List.getElem?_concat_length] at hv
    exact hItems v hv
  · rw [List.getElem?_eq_none (by simpa using Nat.succ_le_of_lt hBeyond)] at hv
    exact absurd hv List.not_mem_nil

/-- The items that a value is read as are known if the value is, and those that streams have left.
-/
theorem items? (h : s.Within known) {v : Value} (hv : v.Within known) {items : List Value}
    (hItems : s.items? v = some items) : ∀ item ∈ items, item.Within known := by
  -- five kinds of values have items, and only those of a stream are not in the value itself
  cases v with
  | list vs =>
    obtain rfl := Option.some.inj hItems
    exact Value.within_list.mp hv
  | tuple vs =>
    obtain rfl := Option.some.inj hItems
    exact Value.within_tuple.mp hv
  | set vs =>
    obtain rfl := Option.some.inj hItems
    exact Value.within_set.mp hv
  | map entries =>
    obtain rfl := Option.some.inj hItems
    exact Entries.Both.keys (Value.within_map.mp hv)
  | stream id =>
    obtain rfl := Option.some.inj hItems
    exact h id
  | _ => cases hItems

/-- What is left after a reading was there before. -/
theorem of_takes (h : s.Within known) {ε α : Type} {r : Reading ε α} (hTakes : r.Takes) :
    (r.result s).2.Within known :=
  fun id v hv => h id v ((hTakes s).mem id v hv)

end Streams.Within

-- ---------------------------------------------------------------------------
-- Readings
-- ---------------------------------------------------------------------------

/-- Whether a reading leaves only what is known in streams that had nothing else, and what it then
gives is of some kind. -/
def Reading.Drains {ε α : Type} (known : Value → Prop) (Q : α → Prop) (r : Reading ε α) : Prop :=
  ∀ s : Streams, s.Within known → (r.result s).2.Within known ∧ ∀ a, (r.result s).1 = .ok a → Q a

/-- A reading that takes from streams leaves no more in them than there was. If all its results are
as they should be, nothing is left to show. -/
theorem Reading.Takes.drains {ε α : Type} {r : Reading ε α} (h : r.Takes) {Q : α → Prop}
    (hQ : ∀ a, Q a) : r.Drains known Q :=
  fun _ hs => ⟨hs.of_takes h, fun a _ => hQ a⟩

namespace Reading.Drains

variable {ε ε' α β : Type} {P : α → Prop} {Q : β → Prop}

theorem pure {a : α} (h : P a) : Drains known P (Pure.pure a : Reading ε α) :=
  fun _ hs => ⟨hs, fun _ hb => Except.ok.inj hb ▸ h⟩

/-- A reading that fails takes nothing from streams, and there is no result of which anything is to
be shown. -/
theorem throw (e : ε) : Drains known P (MonadExcept.throw e : Reading ε α) :=
  fun _ hs => ⟨hs, fun _ hb => by cases hb⟩

/-- An outcome that is there from the beginning. -/
theorem ofExcept {r : Except ε α} (h : ∀ a, r = .ok a → P a) :
    Drains known P (Reading.ofExcept r) :=
  fun _ hs => ⟨hs, h⟩

/-- One reading after the other drains streams if both do, where the second one may count on what
the first one gives. -/
theorem bind {x : Reading ε α} {k : α → Reading ε β} (hx : Drains known P x)
    (hk : ∀ a, P a → Drains known Q (k a)) : Drains known Q (x >>= k) := by
  intro s hs
  obtain ⟨hStreams, hP⟩ := hx s hs
  rw [result_bind]
  rcases hResult : x.result s with ⟨e | a, t⟩
  · rw [hResult] at hStreams
    exact ⟨hStreams, fun _ hb => by cases hb⟩
  · rw [hResult] at hStreams hP
    exact hk a (hP a rfl) t hStreams

/-- Another description of a problem changes neither results nor streams. -/
theorem mapProblem {x : Reading ε α} (hx : Drains known P x) (f : ε → ε') :
    Drains known P (x.mapProblem f) := by
  intro s hs
  obtain ⟨hStreams, hP⟩ := hx s hs
  refine ⟨hStreams, fun a ha => hP a ?_⟩
  exact congrArg Prod.fst (mapProblem_eq_ok.mp (Prod.ext ha rfl))

end Reading.Drains

section

open Reading (Drains)
open Value (Within)

variable {ε : Type}

/-- Whatever pairs are read from, their parts are known. -/
theorem readPairs_drains {v : Value} (hv : v.Within known) (notPairs : ε)
    (notPair : Nat → Value → ε) :
    Drains known (Entries.Both (Within known)) (readPairs v notPairs notPair) := by
  intro s hs
  refine ⟨hs.of_takes (readPairs_takes v notPairs notPair), fun pairs hPairs => ?_⟩
  rw [result_readPairs] at hPairs
  cases hItems : s.items? v with
  | none =>
    rw [hItems] at hPairs
    cases hPairs
  | some items =>
    rw [hItems] at hPairs
    simp only at hPairs
    split at hPairs
    · cases hPairs
    · obtain rfl := Except.ok.inj hPairs
      -- each pair that is read comes from one of the items before the first that is none
      intro e he
      obtain ⟨leading, hLeading, rfl⟩ := List.mem_filterMap.mp he
      obtain ⟨item, hItem, hPair⟩ := List.mem_map.mp (List.takeWhile_subset _ hLeading)
      exact (hs.items? hv hItems item hItem).pair? hPair

-- ---------------------------------------------------------------------------
-- Rules
-- ---------------------------------------------------------------------------

/-- Whether a constant that decides mentions only what is known. -/
def Predicate.Within (known : Value → Prop) : Predicate → Prop
  | function _ => True
  | constant v => v.Within known

/-- The predicate that a value stands for contains no more than the value. -/
theorem Predicate.within_ofValue {v : Value} (h : v.Within known) :
    (Predicate.ofValue v).Within known := by
  cases v with
  | function name => trivial
  | _ => exact h

/-- Whether the target and the predicate of a rule are known. -/
structure Rule.Within (known : Value → Prop) (rule : Rule) : Prop where
  target : known (.state rule.target)
  predicate : rule.predicate.Within known

theorem readRulePairs_drains {spec : Value} (h : spec.Within known) (source : Value) :
    Drains known (Entries.Both (Within known)) (readRulePairs source spec) := by
  unfold readRulePairs
  split
  · exact .pure (List.forall_mem_nil _)
  · exact .pure (Value.within_map.mp h)
  · exact readPairs_drains h _ _

/-- The predicate of a record is one of its values, or the constant that stands for a missing one.
-/
theorem checkRecord_within {record : Entries} (h : Entries.Both (Within known) record)
    {predicate : Predicate} {label : Option String} {actions : Value}
    (hRecord : checkRecord record = .ok (predicate, label, actions)) :
    predicate.Within known := by
  unfold checkRecord at hRecord
  dsimp only at hRecord
  split at hRecord
  · cases hFound : record.get? (.text "rule") with
    | none =>
      rw [hFound] at hRecord
      cases hRecord
    | some value =>
      rw [hFound] at hRecord
      dsimp only at hRecord
      split at hRecord
      · cases hRecord
      · -- in the one case in which a record is accepted, its predicate is the value under `rule`
        have hPredicate : Predicate.ofValue value = predicate := by
          cases value with
          | list _ | tuple _ | map _ => cases hRecord
          | _ =>
            cases hLabel : readLabel record with
            | error problem =>
              rw [hLabel] at hRecord
              cases hRecord
            | ok other =>
              rw [hLabel] at hRecord
              exact congrArg Prod.fst (Except.ok.inj hRecord)
        exact hPredicate ▸ Predicate.within_ofValue (h.get? hFound)
  · cases hRecord

/-- A rule that is read refers to its target, and contains what its specification contains. -/
theorem readRule_drains {target : StateRef} {spec : Value} (hTarget : known (.state target))
    (hSpec : spec.Within known) (source targetName : Value) :
    Drains known (Rule.Within known) (readRule source targetName target spec) := by
  have hActions (v : Value) : Drains known (fun _ => True)
      ((readActions v).mapProblem RuleProblem.actions) :=
    ((readActions_takes v).mapProblem _).drains fun _ => trivial
  -- a list and a tuple of a predicate and actions are read in the same way
  have hSequence {items : List Value} (hItems : ∀ v ∈ items, v.Within known) {first : Value}
      (hFirst : first ∈ items) (rest : List Value) : Drains known (Rule.Within known) (do
        let actions ← (readActions (.list rest)).mapProblem RuleProblem.actions
        return { target, predicate := .ofValue first, label := none, actions,
                 kind := (Predicate.ofValue first).kind }) :=
    (hActions _).bind fun _ _ => .pure ⟨hTarget, Predicate.within_ofValue (hItems first hFirst)⟩
  refine Drains.mapProblem ?_ _
  unfold readRuleTo
  split
  · rename_i record
    have hRecord : Drains known (fun parts => parts.1.Within known)
        (Reading.ofExcept (checkRecord record)) :=
      .ofExcept fun parts hParts => checkRecord_within (Value.within_map.mp hSpec) hParts
    exact hRecord.bind fun _ hPredicate => (hActions _).bind fun _ _ => .pure ⟨hTarget, hPredicate⟩
  · exact .throw _
  · exact .throw _
  · exact hSequence (Value.within_list.mp hSpec) List.mem_cons_self _
  · exact hSequence (Value.within_tuple.mp hSpec) List.mem_cons_self _
  · exact .pure ⟨hTarget, Predicate.within_ofValue hSpec⟩

-- ---------------------------------------------------------------------------
-- Tables
-- ---------------------------------------------------------------------------

theorem readEntries_drains {table : Value} (h : table.Within known) :
    Drains known (Entries.Both (Within known)) (readEntries table) := by
  unfold readEntries
  split
  · exact .pure (Value.within_map.mp h)
  · exact readPairs_drains h _ _

/-- The entries of a definition are those of the map that it is. Without one there are no entries.
-/
theorem checkDefinition_within {name definition : Value} (h : definition.Within known)
    {entries : Entries} (hEntries : checkDefinition name definition = .ok entries) :
    Entries.Both (Within known) entries := by
  unfold checkDefinition at hEntries
  split at hEntries
  · obtain rfl := Except.ok.inj hEntries
    exact List.forall_mem_nil _
  · dsimp only at hEntries
    split at hEntries
    · obtain rfl := Except.ok.inj hEntries
      exact Value.within_map.mp h
    · cases hEntries
  · cases hEntries

/-- Whether the name and the rules of a declaration are known. -/
structure Declaration.Within (known : Value → Prop) (d : Declaration) : Prop where
  name : d.name.Within known
  rules : d.rules.Within known

/-- A declaration consists of a name and of parts of a definition. -/
theorem readDeclaration_drains {name definition : Value} (hName : name.Within known)
    (hDefinition : definition.Within known) (declared : List Value) :
    Drains known (Declaration.Within known) (readDeclaration declared name definition) := by
  have hActions (place : ActionPlace) (v : Value) :
      Drains known (fun _ => True) (readActionsAt place v) :=
    (readActionsAt_takes place v).drains fun _ => trivial
  refine Drains.bind (P := fun _ => True) (.ofExcept fun _ _ => trivial) fun _ _ => ?_
  refine Drains.bind (.ofExcept fun _ => checkDefinition_within hDefinition)
    fun entries hEntries => ?_
  refine (hActions _ _).bind fun _ _ => (hActions _ _).bind fun _ _ => ?_
  exact (hActions _ _).bind fun _ _ => .pure ⟨hName, hEntries.getD _ Value.within_null⟩

theorem readDeclarations_drains {entries : List (Value × Value)}
    (h : Entries.Both (Within known) entries) (declared : List Value) :
    Drains known (fun ds => ∀ d ∈ ds, d.Within known) (readDeclarations declared entries) := by
  induction entries generalizing declared with
  | nil => exact .pure (List.forall_mem_nil _)
  | cons entry rest ih =>
    obtain ⟨name, definition⟩ := entry
    obtain ⟨hFirst, hRest⟩ := List.forall_mem_cons.mp h
    refine (readDeclaration_drains hFirst.1 hFirst.2 declared).bind fun d hd => ?_
    exact (ih hRest _).bind fun ds hds => .pure (List.forall_mem_cons.mpr ⟨hd, hds⟩)

/-- The rules that are read for a state have states of the machine for targets. -/
theorem readRules_drains {self : MachineRef}
    (hSelf : ∀ i, known (.state { machine := self, index := i }))
    {pairs : List (Value × Value)} (h : Entries.Both (Within known) pairs) (m : Machine)
    (source : Value) :
    Drains known (fun rules => ∀ rule ∈ rules, rule.Within known)
      (readRules m self source pairs) := by
  induction pairs with
  | nil => exact .pure (List.forall_mem_nil _)
  | cons pair rest ih =>
    obtain ⟨target, spec⟩ := pair
    obtain ⟨hFirst, hRest⟩ := List.forall_mem_cons.mp h
    unfold readRules
    -- either the target is declared, and is a state of the machine itself, or reading ends here
    split
    · refine (readRule_drains (hSelf _) hFirst.2 source _).bind fun rule hRule => ?_
      exact (ih hRest).bind fun rules hRules => .pure (List.forall_mem_cons.mpr ⟨hRule, hRules⟩)
    · exact .throw _

theorem readAllRules_drains {self : MachineRef}
    (hSelf : ∀ i, known (.state { machine := self, index := i })) {ds : List Declaration}
    (h : ∀ d ∈ ds, d.Within known) (m : Machine) :
    Drains known (fun rules => ∀ rs ∈ rules, ∀ rule ∈ rs, rule.Within known)
      (readAllRules m self ds) := by
  induction ds with
  | nil => exact .pure (List.forall_mem_nil _)
  | cons d rest ih =>
    obtain ⟨hFirst, hRest⟩ := List.forall_mem_cons.mp h
    refine (readRulePairs_drains hFirst.rules d.name).bind fun pairs hPairs => ?_
    refine (readRules_drains hSelf hPairs m d.name).bind fun rules hRules => ?_
    exact (ih hRest).bind fun others hOthers => .pure (List.forall_mem_cons.mpr ⟨hRules, hOthers⟩)

/-- Whether the name and the rules of a state mention only what is known. -/
structure State.Within (known : Value → Prop) (s : State) : Prop where
  name : s.name.Within known
  rules : ∀ rule ∈ s.rules, rule.Within known

/-- Whether what a visit mentions is known: the name of its state, the result and the message. -/
structure Visit.Within (known : Value → Prop) (visit : Visit) : Prop where
  name : visit.name.Within known
  result : visit.result.Within known
  message : visit.message.Within known

/-- Whether a machine mentions only what is known. -/
structure Machine.Within (known : Value → Prop) (m : Machine) : Prop where
  states : ∀ s ∈ m.states, s.Within known
  history : ∀ visit ∈ m.history, visit.Within known
  notes : Entries.Both (Value.Within known) m.notes
  done : m.done.Within known

/-- States keep their names when they get their rules. -/
theorem name_within_zipWith {states : List State} (h : ∀ s ∈ states, s.name.Within known)
    {rules : List (List Rule)} :
    ∀ s ∈ states.zipWith (fun s rules => { s with rules }) rules, s.name.Within known := by
  intro s hs
  obtain ⟨i, hi, rfl⟩ := List.getElem_of_mem hs
  rw [List.getElem_zipWith]
  have hState : i < states.length := List.lt_length_left_of_zipWith hi
  exact h states[i] (List.getElem_mem hState)

/-- The names of a machine are those that were declared. -/
theorem name_within_ofDeclarations {ds : List Declaration} (h : ∀ d ∈ ds, d.Within known) :
    ∀ s ∈ (Machine.ofDeclarations ds).states, s.name.Within known := by
  intro s hs
  obtain ⟨d, hd, rfl⟩ := List.mem_map.mp hs
  exact (h d hd).name

/-- The names of the states of a machine mention what its table mentions. -/
theorem readTable_drains_names {table : Value} (h : table.Within known) (self : MachineRef) :
    Drains known (fun m => ∀ s ∈ m.states, s.name.Within known) (readTable self table) := by
  refine (readEntries_drains h).bind fun entries hEntries => ?_
  refine (readDeclarations_drains hEntries []).bind fun ds hds => ?_
  refine Drains.bind (P := fun _ => True) ((readAllRules_takes _ self ds).drains fun _ => trivial)
    fun rules _ => .pure ?_
  exact name_within_zipWith (name_within_ofDeclarations hds)

/-- **A machine that is read from a table** mentions what the table mentions, and itself. -/
theorem readTable_drains {self : MachineRef}
    (hSelf : ∀ i, known (.state { machine := self, index := i })) {table : Value}
    (h : table.Within known) :
    Drains known (Machine.Within known) (readTable self table) := by
  refine (readEntries_drains h).bind fun entries hEntries => ?_
  refine (readDeclarations_drains hEntries []).bind fun ds hds => ?_
  refine (readAllRules_drains hSelf hds _).bind fun rules hRules => .pure ?_
  refine
    ⟨fun s hs => ⟨?_, ?_⟩, List.forall_mem_nil _, List.forall_mem_nil _, Value.within_bool false⟩
  · -- the rules are added to the states that were declared, one list for each of them
    exact name_within_zipWith (name_within_ofDeclarations hds) s hs
  · obtain ⟨i, hi, rfl⟩ := List.getElem_of_mem hs
    rw [List.getElem_zipWith]
    have hRule : i < rules.length := List.lt_length_right_of_zipWith hi
    exact hRules _ (List.getElem_mem hRule)

end

end RuleMachine
