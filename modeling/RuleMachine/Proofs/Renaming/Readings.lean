import RuleMachine.Proofs.Renaming.Machines
import RuleMachine.Proofs.Within

/-!
# Readings under new numbers

What is read from a renamed definition is what was read from the definition, renamed, as long as the
streams have the same items left under their new numbers. Streams are used up alike.

* `Reading.Alike`, `Reading.AlikeOn`: readings that come to the same.
* `readTable_alikeOn`: tables build the same machines.
-/

namespace RuleMachine

-- ---------------------------------------------------------------------------
-- Streams
-- ---------------------------------------------------------------------------

/-- Whether streams are other streams under new numbers. -/
def Streams.Renamed (ρ : Renaming) (last : Nat) (s s' : Streams) : Prop :=
  Renumbered (ρ .stream) last (List.map (Value.rename ρ)) s.left s'.left

namespace Streams.Renamed

variable {ρ : Renaming} {last : Nat} {s s' : Streams} (h : s.Renamed ρ last s')
include h

/-- What a stream has left is the same, item by item. -/
theorem rest (id : Nat) : s'.rest (ρ .stream id) = (s.rest id).map (Value.rename ρ) := by
  rw [Streams.rest, h.get, Streams.rest]
  cases s.left[id]? <;> rfl

/-- A new stream corresponds to a new stream. -/
theorem add (items : List Value) (hLast : s.left.length < last) :
    (s'.add (items.map (Value.rename ρ))).1 = (s.add items).1.rename ρ ∧
      (s.add items).2.Renamed ρ last (s'.add (items.map (Value.rename ρ))).2 := by
  have hNext : ρ .stream s.left.length = s'.left.length := h.next 0 hLast
  exact ⟨congrArg Value.stream hNext.symm, h.append items hNext⟩

/-- So a value is read as the same items, whether they are in the value or in a stream. -/
theorem items? (v : Value) :
    s'.items? (v.rename ρ) = (s.items? v).map (List.map (Value.rename ρ)) := by
  cases v with
  | list | tuple | set => simp [Streams.items?]
  | map entries =>
    rw [Value.rename_map]
    exact congrArg some (Entries.keys_rename ρ entries)
  | stream id => exact congrArg some (h.rest id)
  | _ => rfl

/-- Items are taken from corresponding streams. -/
theorem take (v : Value) (count : Nat) :
    (s.take v count).Renamed ρ last (s'.take (v.rename ρ) count) := by
  cases v with
  | stream id => exact h.modify id fun items => List.map_drop.symm
  | _ => exact h

end Streams.Renamed

-- ---------------------------------------------------------------------------
-- Readings
-- ---------------------------------------------------------------------------

/-- Whether two readings come to the same, up to a change of problems and results, when streams
correspond and mention only what is known. -/
structure Reading.AlikeOn (known : Value → Prop) (ρ : Renaming) {ε α : Type} (f : ε → ε)
    (g : α → α) (r r' : Reading ε α) : Prop where
  same : ∀ {last s s'}, s.Within known → s.Renamed ρ last s' →
    (r'.result s').1 = mapOutcome f g (r.result s).1 ∧
      (r.result s).2.Renamed ρ last (r'.result s').2

/-- One reading after the other. The second one is alike for streams that the first one has drained,
as these still contain nothing unknown. -/
theorem Reading.AlikeOn.bind {known : Value → Prop} {ρ : Renaming} {ε α β : Type} {f : ε → ε}
    {g : α → α} {h : β → β} {P : α → Prop} {r r' : Reading ε α} {k k' : α → Reading ε β}
    (hr : AlikeOn known ρ f g r r') (hDrains : r.Drains known P)
    (hk : ∀ a, P a → AlikeOn known ρ f h (k a) (k' (g a))) :
    AlikeOn known ρ f h (r >>= k) (r' >>= k') where
  same {last s s'} hKnown hs := by
    obtain ⟨hResult, hStreams⟩ := hr.same hKnown hs
    obtain ⟨hLeft, hP⟩ := hDrains s hKnown
    rw [result_bind, result_bind]
    -- the first reading fails in both cases or in none, and leaves streams that correspond
    rcases hFirst : r.result s with ⟨e | a, t⟩
    · rcases hFirst' : r'.result s' with ⟨x, t'⟩
      rw [hFirst, hFirst'] at hResult hStreams
      obtain rfl : x = .error (f e) := hResult
      exact ⟨rfl, hStreams⟩
    · rcases hFirst' : r'.result s' with ⟨x, t'⟩
      rw [hFirst] at hLeft hP
      rw [hFirst, hFirst'] at hResult hStreams
      obtain rfl : x = .ok (g a) := hResult
      exact (hk a (hP a rfl)).same hLeft hStreams

/-- The same whatever streams mention. -/
structure Reading.Alike (ρ : Renaming) {ε α : Type} (f : ε → ε) (g : α → α)
    (r r' : Reading ε α) : Prop where
  on : ∀ {known : Value → Prop}, AlikeOn known ρ f g r r'

namespace Reading.Alike

variable {ρ : Renaming} {ε α β : Type} {f : ε → ε} {g : α → α} {h : β → β}

theorem pure {a a' : α} (ha : a' = g a) :
    Alike ρ f g (pure a : Reading ε α) (pure a' : Reading ε α) :=
  ⟨⟨fun _ hs => ⟨congrArg Except.ok ha, hs⟩⟩⟩

theorem throw {e e' : ε} (he : e' = f e) :
    Alike ρ f g (throw e : Reading ε α) (throw e' : Reading ε α) :=
  ⟨⟨fun _ hs => ⟨congrArg Except.error he, hs⟩⟩⟩

theorem ofExcept {x x' : Except ε α} (hx : x' = mapOutcome f g x) :
    Alike ρ f g (Reading.ofExcept x) (Reading.ofExcept x') :=
  ⟨⟨fun _ hs => ⟨hx, hs⟩⟩⟩

/-- One reading after the other, where nothing has to be known of what streams contain. -/
theorem bind {r r' : Reading ε α} {k k' : α → Reading ε β} (hr : Alike ρ f g r r')
    (hTakes : r.Takes) (hk : ∀ a, Alike ρ f h (k a) (k' (g a))) :
    Alike ρ f h (r >>= k) (r' >>= k') :=
  ⟨hr.on.bind (hTakes.drains fun _ => trivial) fun a _ => (hk a).on⟩

/-- Describing a problem otherwise, in both cases alike. -/
theorem mapProblem {ε' : Type} {f' : ε' → ε'} {e e' : ε → ε'} {r r' : Reading ε α}
    (hr : Alike ρ f g r r') (he : ∀ x, e' (f x) = f' (e x)) :
    Alike ρ f' g (r.mapProblem e) (r'.mapProblem e') := by
  refine ⟨⟨fun {last s s'} hKnown hs => ?_⟩⟩
  obtain ⟨hResult, hStreams⟩ := hr.on.same hKnown hs
  refine ⟨?_, hStreams⟩
  show ((r'.result s').1.mapError e') = mapOutcome f' g ((r.result s).1.mapError e)
  rw [hResult]
  cases (r.result s).1 with
  | ok a => rfl
  | error x => exact congrArg Except.error (he x)

end Reading.Alike

-- ---------------------------------------------------------------------------
-- What values yield
-- ---------------------------------------------------------------------------

section

variable {ρ : Renaming} {ε : Type} {f : ε → ε}

/-- Items are taken from corresponding streams alike. -/
theorem readItems?_alike (v : Value) :
    Reading.Alike ρ f (Option.map (List.map (Value.rename ρ))) (readItems? v : Reading ε _)
      (readItems? (v.rename ρ)) := by
  refine ⟨⟨fun {last s s'} _ hs => ?_⟩⟩
  rw [result_readItems?, result_readItems?, hs.items?]
  cases s.items? v with
  | none => exact ⟨rfl, hs⟩
  | some items =>
    simp only [Option.map_some, List.length_map]
    exact ⟨rfl, hs.take v _⟩

/-- Items up to the first that is no pair stay so, as pairs stay pairs. -/
theorem leadingPairs_rename (items : List Value) :
    leadingPairs (items.map (Value.rename ρ)) =
      (leadingPairs items).map (Option.map (Value.renamePair ρ)) := by
  induction items with
  | nil => rfl
  | cons v rest ih =>
    simp only [leadingPairs, List.map_cons, Value.pair?_rename] at ih ⊢
    cases v.pair? with
    | none => rfl
    | some e => exact congrArg (some (Value.renamePair ρ e) :: ·) ih

/-- Pairs are read alike, and so is the first item reported that is none. -/
theorem readPairs_alike (v : Value) {notPairs notPairs' : ε} {notPair notPair' : Nat → Value → ε}
    (hPairs : notPairs' = f notPairs)
    (hPair : ∀ index item, notPair' index (item.rename ρ) = f (notPair index item)) :
    Reading.Alike ρ f (List.map (Value.renamePair ρ)) (readPairs v notPairs notPair)
      (readPairs (v.rename ρ) notPairs' notPair') := by
  refine ⟨⟨fun {last s s'} _ hs => ?_⟩⟩
  rw [result_readPairs, result_readPairs, hs.items?]
  cases s.items? v with
  | none => exact ⟨congrArg Except.error hPairs, hs⟩
  | some items =>
    simp only [Option.map_some, leadingPairs_rename, List.length_map, List.getElem?_map,
      List.filterMap_map]
    refine ⟨?_, hs.take v _⟩
    -- there is an item that is no pair if the items do not end with the leading pairs
    cases items[(leadingPairs items).length]? with
    | some item => exact congrArg Except.error (hPair _ item)
    | none =>
      refine congrArg Except.ok ?_
      simp only [List.map_filterMap]
      rfl

end

-- ---------------------------------------------------------------------------
-- Action lists and rules
-- ---------------------------------------------------------------------------

variable (ρ : Renaming)

/-- The names of functions have no numbers in them. An item that is no function is reported with its
own value. -/
theorem functionsFrom_rename (index : Nat) (items : List Value) :
    functionsFrom index (items.map (Value.rename ρ)) =
      mapOutcome (ActionProblem.rename ρ) id (functionsFrom index items) := by
  induction items generalizing index with
  | nil => rfl
  | cons v rest ih =>
    simp only [List.map_cons, functionsFrom, Value.function?_rename]
    cases v.function? with
    | none => rfl
    | some name =>
      simp only [ih]
      cases functionsFrom (index + 1) rest <;> rfl

/-- Action lists are read alike. -/
theorem readActions_alike (v : Value) :
    Reading.Alike ρ (ActionProblem.rename ρ) id (readActions v) (readActions (v.rename ρ)) := by
  cases v with
  | null => exact .pure rfl
  | function name => exact .pure rfl
  | _ =>
    refine .bind (readItems?_alike _) (readItems?_takes _) fun items => ?_
    cases items with
    | none => exact .throw (by rw [Value.typeName_rename]; rfl)
    | some items => exact .ofExcept (functionsFrom_rename ρ 0 items)

theorem readActionsAt_alike (place : ActionPlace) (v : Value) :
    Reading.Alike ρ (Cause.rename ρ) id (readActionsAt place v)
      (readActionsAt (place.rename ρ) (v.rename ρ)) :=
  (readActions_alike ρ v).mapProblem fun _ => rfl

/-- Keys that are texts are found alike. -/
theorem get?_text_rename (es : Entries) (key : String) :
    (es.rename ρ).get? (.text key) = (es.get? (.text key)).map (Value.rename ρ) :=
  es.get?_rename ρ (.text key)

/-- Whether a key is a certain text does not depend on numbers. -/
theorem eqv_text_rename (v : Value) (s : String) :
    (v.rename ρ).eqv (.text s) = v.eqv (.text s) :=
  Value.eqv_rename ρ v (.text s)

/-- The keys of some kind, as long as the kind does not depend on numbers. -/
theorem filter_keys_rename (es : Entries) (known : Value → Bool)
    (hKnown : ∀ key, known (key.rename ρ) = known key) :
    (es.rename ρ).keys.filter known = (es.keys.filter known).map (Value.rename ρ) := by
  rw [Entries.keys_rename, List.filter_map]
  exact congrArg (fun known => (es.keys.filter known).map (Value.rename ρ)) (funext hKnown)

theorem isRuleKey_rename (key : Value) : isRuleKey (key.rename ρ) = isRuleKey key := by
  simp only [isRuleKey, eqv_text_rename]

theorem readLabel_rename (record : Entries) :
    readLabel (record.rename ρ) = mapOutcome (RuleProblem.rename ρ) id (readLabel record) := by
  rw [readLabel, get?_text_rename, readLabel]
  rcases record.get? (.text "message") with _ | v
  · rfl
  · cases v <;> rfl

/-- The parts of the record of a rule, renamed. -/
def renameParts : Predicate × Option String × Value → Predicate × Option String × Value :=
  fun (predicate, label, actions) => (predicate.rename ρ, label, actions.rename ρ)

/-- A record is checked alike: its keys, its predicate and its label. -/
theorem checkRecord_rename (record : Entries) :
    checkRecord (record.rename ρ) =
      mapOutcome (RuleProblem.rename ρ) (renameParts ρ) (checkRecord record) := by
  have hUnknown := filter_keys_rename ρ record (fun key => !isRuleKey key)
    fun key => by rw [isRuleKey_rename]
  -- `action` is looked up before `actions`, and neither key has a number in it
  have hActions : ((((record.get? (.text "action")).map (Value.rename ρ)).or
      ((record.get? (.text "actions")).map (Value.rename ρ))).getD .null) =
        (((record.get? (.text "action")).or (record.get? (.text "actions"))).getD .null).rename
          ρ := by
    cases record.get? (.text "action") <;> cases record.get? (.text "actions") <;> rfl
  simp only [checkRecord, hUnknown, List.isEmpty_map, get?_text_rename, Option.isSome_map,
    readLabel_rename, hActions]
  split
  · rcases record.get? (.text "rule") with _ | value
    · rfl
    · simp only [Option.map_some, Predicate.ofValue_rename]
      split
      · rfl
      · cases value with
        | list | tuple | map => rfl
        | _ => cases readLabel record <;> rfl
  · rfl

/-- A rule is read alike, wherever its target is moved. -/
theorem readRuleTo_alike (move : StateRef → StateRef) (target : StateRef) (spec : Value) :
    Reading.Alike ρ (RuleProblem.rename ρ) (Rule.carry ρ move) (readRuleTo target spec)
      (readRuleTo (move target) (spec.rename ρ)) := by
  have hSequence (first : Value) (rest : List Value) :
      Reading.Alike ρ (RuleProblem.rename ρ) (Rule.carry ρ move)
        (do
          let actions ← (readActions (.list rest)).mapProblem RuleProblem.actions
          return { target, predicate := .ofValue first, label := none, actions,
                   kind := (Predicate.ofValue first).kind })
        (do
          let actions ← (readActions (.list (rest.map (Value.rename ρ)))).mapProblem
            RuleProblem.actions
          return { target := move target, predicate := .ofValue (first.rename ρ)
                   label := none, actions
                   kind := (Predicate.ofValue (first.rename ρ)).kind }) := by
    have hRest := readActions_alike ρ (.list rest)
    rw [Value.rename_list] at hRest
    refine .bind (hRest.mapProblem fun _ => rfl) ((readActions_takes _).mapProblem _)
      fun actions => .pure ?_
    rw [Predicate.ofValue_rename, Predicate.kind_rename]
    rfl
  -- a set has items as well, but as a rule it is a constant
  cases spec with
  | map record =>
    rw [Value.rename_map]
    refine .bind (.ofExcept (checkRecord_rename ρ record)) (.ofExcept _)
      fun (predicate, label, actions) => ?_
    exact .bind ((readActions_alike ρ actions).mapProblem fun _ => rfl)
      ((readActions_takes _).mapProblem _) fun _ => .pure rfl
  | list items =>
    rw [Value.rename_list]
    cases items with
    | nil => exact .throw rfl
    | cons first rest => exact hSequence first rest
  | tuple items =>
    rw [Value.rename_tuple]
    cases items with
    | nil => exact .throw rfl
    | cons first rest => exact hSequence first rest
  | set items =>
    rw [Value.rename_set]
    refine .pure ?_
    rw [← Value.rename_set, Predicate.ofValue_rename, Predicate.kind_rename]
    rfl
  | _ => exact .pure rfl

/-- A rule is read alike, also if its target moves to another place in between. -/
theorem readRule_alike (move : StateRef → StateRef) (source targetName : Value)
    (target : StateRef) (spec : Value) :
    Reading.Alike ρ (Cause.rename ρ) (Rule.carry ρ move) (readRule source targetName target spec)
      (readRule (source.rename ρ) (targetName.rename ρ) (move target) (spec.rename ρ)) :=
  (readRuleTo_alike ρ move target spec).mapProblem fun _ => rfl

theorem readRulePairs_alike (source spec : Value) :
    Reading.Alike ρ (Cause.rename ρ) (List.map (Value.renamePair ρ)) (readRulePairs source spec)
      (readRulePairs (source.rename ρ) (spec.rename ρ)) := by
  have hPairs : Reading.Alike ρ (Cause.rename ρ) (List.map (Value.renamePair ρ))
      (readPairs spec (Cause.notRules source) fun index item => .notRulePair index source item)
      (readPairs (spec.rename ρ) (Cause.notRules (source.rename ρ)) fun index item =>
        .notRulePair index (source.rename ρ) item) :=
    readPairs_alike spec rfl fun _ _ => rfl
  -- a map has its pairs already, and without rules there are none
  cases spec with
  | null => exact .pure rfl
  | map entries =>
    rw [Value.rename_map]
    exact .pure rfl
  | _ => exact hPairs

-- ---------------------------------------------------------------------------
-- Tables
-- ---------------------------------------------------------------------------

/-- A declaration with its name and its rules renamed, the latter still being a value. Actions are
names of functions. -/
def Declaration.rename (d : Declaration) : Declaration :=
  { d with name := d.name.rename ρ, rules := d.rules.rename ρ }

/-- The entries of a table are read alike, whatever it lists them in. -/
theorem readEntries_alike (table : Value) :
    Reading.Alike ρ (Cause.rename ρ) (List.map (Value.renamePair ρ)) (readEntries table)
      (readEntries (table.rename ρ)) := by
  have hPairs : Reading.Alike ρ (Cause.rename ρ) (List.map (Value.renamePair ρ))
      (readPairs table (Cause.notTable table.typeName) fun index item => .notTableEntry index item)
      (readPairs (table.rename ρ) (Cause.notTable (table.rename ρ).typeName) fun index item =>
        .notTableEntry index item) :=
    readPairs_alike table (by rw [Value.typeName_rename]; rfl) fun _ _ => rfl
  cases table with
  | map entries =>
    rw [Value.rename_map]
    exact .pure rfl
  | _ => exact hPairs

theorem isDefinitionKey_rename (key : Value) :
    isDefinitionKey (key.rename ρ) = isDefinitionKey key := by
  simp only [isDefinitionKey, eqv_text_rename]

/-- A name is a key or not under any numbers, and it equals an earlier one or not. -/
theorem checkName_rename (declared : List Value) (name : Value) :
    checkName (declared.map (Value.rename ρ)) (name.rename ρ) =
      mapOutcome (Cause.rename ρ) id (checkName declared name) := by
  have hAny : (declared.map (Value.rename ρ)).any (fun other => other.eqv (name.rename ρ)) =
      declared.any fun other => other.eqv name := by
    rw [List.any_map]
    exact congrArg declared.any (funext fun other => Value.eqv_rename ρ other name)
  simp only [checkName, Value.hashable_rename, hAny]
  split
  · rfl
  · split <;> rfl

theorem checkDefinition_rename (name definition : Value) :
    checkDefinition (name.rename ρ) (definition.rename ρ) =
      mapOutcome (Cause.rename ρ) (Entries.rename ρ) (checkDefinition name definition) := by
  cases definition with
  | map entries =>
    have hUnknown := filter_keys_rename ρ entries (fun key => !isDefinitionKey key)
      fun key => by rw [isDefinitionKey_rename]
    rw [Entries.rename] at hUnknown
    simp only [Value.rename_map, checkDefinition, hUnknown, List.isEmpty_map]
    split <;> rfl
  | _ => rfl

theorem readDeclaration_alike (declared : List Value) (name definition : Value) :
    Reading.Alike ρ (Cause.rename ρ) (Declaration.rename ρ)
      (readDeclaration declared name definition)
      (readDeclaration (declared.map (Value.rename ρ)) (name.rename ρ) (definition.rename ρ)) := by
  refine .bind (.ofExcept (checkName_rename ρ declared name)) (.ofExcept _) fun _ => ?_
  refine .bind (.ofExcept (checkDefinition_rename ρ name definition)) (.ofExcept _)
    fun entries => ?_
  -- the parts of a definition are found under keys that are texts
  have hField (key : String) : ((entries.rename ρ).get? (.text key)).getD .null =
      ((entries.get? (.text key)).getD .null).rename ρ := by
    rw [get?_text_rename]
    cases entries.get? (.text key) <;> rfl
  simp only [hField]
  have hActions (slot : ActionSlot) (v : Value) := readActionsAt_alike ρ (.slot slot name) v
  refine .bind (hActions .onEnter _) (readActionsAt_takes _ _) fun onEnter => ?_
  refine .bind (hActions .body _) (readActionsAt_takes _ _) fun body => ?_
  exact .bind (hActions .onExit _) (readActionsAt_takes _ _) fun onExit => .pure rfl

/-- Declarations are read one by one, each beside the names of the earlier ones. -/
theorem readDeclarations_alike (declared : List Value) (entries : List (Value × Value)) :
    Reading.Alike ρ (Cause.rename ρ) (List.map (Declaration.rename ρ))
      (readDeclarations declared entries)
      (readDeclarations (declared.map (Value.rename ρ)) (entries.map (Value.renamePair ρ))) := by
  induction entries generalizing declared with
  | nil => exact .pure rfl
  | cons e rest ih =>
    obtain ⟨name, definition⟩ := e
    have hRest := ih (declared ++ [name])
    rw [List.map_append] at hRest
    refine .bind (readDeclaration_alike ρ declared name definition) (readDeclaration_takes _ _ _)
      fun first => ?_
    exact .bind hRest (readDeclarations_takes _ _) fun others => .pure rfl

/-- The states that are declared make a renamed machine. -/
theorem Machine.ofDeclarations_rename (declarations : List Declaration) :
    ofDeclarations (declarations.map (Declaration.rename ρ)) =
      (ofDeclarations declarations).rename ρ := by
  simp only [ofDeclarations, ofStates, rename, List.map_map]
  rfl

/-! A machine that is being built has no number yet. If no value mentions it, it does not matter
which number it will get. -/

/-- A machine under new numbers, with the targets of its rules moved in a way of their own. -/
def Machine.carry (move : StateRef → StateRef) (m : Machine) : Machine :=
  { m.rename ρ with
    states := m.states.map fun s =>
      { s with name := s.name.rename ρ, rules := s.rules.map (Rule.carry ρ move) } }

section

variable {ρ}
variable {known : Value → Prop} {self self' : MachineRef} {move : StateRef → StateRef}
  (hMove : ∀ index, move { machine := self, index } = { machine := self', index })
  (hSelf : ∀ s : StateRef, known (.state s) → (ρ .machine s.machine = self' ↔ s.machine = self))
include hMove hSelf

/-- The rules of a state are read alike, if every state of the machine moves alike. The targets are
looked up among the renamed names. -/
theorem readRules_alikeOn (m : Machine) (source : Value) {pairs : List (Value × Value)}
    (h : Entries.Both (Value.Within known) pairs) :
    Reading.AlikeOn known ρ (Cause.rename ρ) (List.map (Rule.carry ρ move))
      (readRules m self source pairs)
      (readRules (m.rename ρ) self' (source.rename ρ) (pairs.map (Value.renamePair ρ))) := by
  induction pairs with
  | nil => exact (Reading.Alike.pure rfl).on
  | cons e rest ih =>
    obtain ⟨target, spec⟩ := e
    obtain ⟨⟨hTarget, -⟩, hRest⟩ := List.forall_mem_cons.mp h
    -- a target that is a State object is one of the machine itself under both numbers or under none
    have hFound : (m.rename ρ).resolve? self' (target.rename ρ) = m.resolve? self target :=
      m.resolve?_rename_of_iff ρ fun s hs => hSelf s (Value.within_state.mp (hs ▸ hTarget))
    simp only [List.map_cons, Value.renamePair, readRules, hFound]
    cases m.resolve? self target with
    | none => exact (Reading.Alike.throw rfl).on
    | some index =>
      simp only [Machine.nameOf_rename, ← hMove]
      have hRule := readRule_alike ρ move source (m.nameOf index) { machine := self, index } spec
      refine hRule.on.bind ((readRule_takes _ _ _ _).drains fun _ => trivial) fun rule _ => ?_
      exact (ih hRest).bind ((readRules_takes _ _ _ _).drains fun _ => trivial)
        fun others _ => (Reading.Alike.pure rfl).on

/-- All rules are read alike, state by state. -/
theorem readAllRules_alikeOn (m : Machine) {declarations : List Declaration}
    (h : ∀ d ∈ declarations, d.Within known) :
    Reading.AlikeOn known ρ (Cause.rename ρ) (List.map (List.map (Rule.carry ρ move)))
      (readAllRules m self declarations)
      (readAllRules (m.rename ρ) self' (declarations.map (Declaration.rename ρ))) := by
  induction declarations with
  | nil => exact (Reading.Alike.pure rfl).on
  | cons d rest ih =>
    obtain ⟨hFirst, hRest⟩ := List.forall_mem_cons.mp h
    -- pairs may be read from a stream, so what is in them is known because streams contain known
    -- values only
    refine (readRulePairs_alike ρ d.name d.rules).on.bind
      (readRulePairs_drains hFirst.rules d.name) fun pairs hPairs => ?_
    refine (readRules_alikeOn hMove hSelf m d.name hPairs).bind
      ((readRules_takes _ _ _ _).drains fun _ => trivial) fun rules _ => ?_
    exact (ih hRest).bind ((readAllRules_takes _ _ _).drains fun _ => trivial)
      fun others _ => (Reading.Alike.pure rfl).on

/-- **Tables build the same machines.** -/
theorem readTable_alikeOn {table : Value} (h : table.Within known) :
    Reading.AlikeOn known ρ (Cause.rename ρ) (Machine.carry ρ move) (readTable self table)
      (readTable self' (table.rename ρ)) := by
  refine (readEntries_alike ρ table).on.bind (readEntries_drains h) fun entries hEntries => ?_
  refine (readDeclarations_alike ρ [] entries).on.bind (readDeclarations_drains hEntries [])
    fun declarations hDeclarations => ?_
  simp only [Machine.ofDeclarations_rename]
  refine (readAllRules_alikeOn hMove hSelf _ hDeclarations).bind
    ((readAllRules_takes _ _ _).drains fun _ => trivial) fun rules _ => ?_
  refine (Reading.Alike.pure ?_).on
  -- the states of the declarations are renamed, and the rules that were read are carried along
  have hStates (states : List State) :
      (states.map (State.rename ρ)).zipWith (fun s rules => { s with rules })
          (rules.map (List.map (Rule.carry ρ move))) =
        (states.zipWith (fun s rules => { s with rules }) rules).map fun s =>
          { s with name := s.name.rename ρ, rules := s.rules.map (Rule.carry ρ move) } := by
    rw [List.zipWith_map, List.map_zipWith]
    rfl
  exact congrArg (fun states => { (Machine.ofDeclarations declarations).rename ρ with states })
    (hStates _)

end

end RuleMachine
