import RuleMachine.Proofs.Reports
import RuleMachine.Proofs.Turns

/-!
# Who refers to a state that is missing

The rules of a table are read when all of its states are declared, in order. The first rule whose
target is no state of the table ends that, if nothing was wrong before, and the failure tells the
target and the state that the rule belongs to. That is the only way in which a build fails because
a state is missing.

When a machine looks a state up later, nobody is said to refer to it, and the failure is worded in
another way. The two cannot be confused, except that a state named null counts as nobody.

* `World.Dangles`: tables in which a rule without target comes first of all that is wrong.
* `World.construct_unknown`: the builds that fail because a state is missing.
* `Config.unknown_target`: how they are reported.
-/

namespace RuleMachine

-- ---------------------------------------------------------------------------
-- Rules that lead nowhere
-- ---------------------------------------------------------------------------

/-- Whether one of several rules of a state leads to `target`, and there is no such state, while
nothing is wrong with the rules before it. They leave `t` of the streams. -/
inductive RulesDangle (m : Machine) (self : MachineRef) (source target : Value)
    (pairs : List (Value × Value)) (s t : Streams) : Prop
  | intro {earlier later : List (Value × Value)} {spec : Value} {rules : List Rule}
    (hPairs : pairs = earlier ++ (target, spec) :: later)
    (hEarlier : (readRules m self source earlier).result s = (.ok rules, t))
    (hUnknown : m.resolve? self target = none)

/-- Whether one of several declared states, by the name `source`, has such a rule, while nothing is
wrong with the rules of the states before it. -/
inductive StatesDangle (m : Machine) (self : MachineRef) (source target : Value)
    (declarations : List Declaration) (s t : Streams) : Prop
  | intro {before after : List Declaration} {d : Declaration} {rules : List (List Rule)}
    {pairs : List (Value × Value)} {s₁ s₂ : Streams}
    (hDeclarations : declarations = before ++ d :: after) (hSource : d.name = source)
    (hBefore : (readAllRules m self before).result s = (.ok rules, s₁))
    (hPairs : (readRulePairs d.name d.rules).result s₁ = (.ok pairs, s₂))
    (hDangles : RulesDangle m self d.name target pairs s₂ t)

/-- **Whether a table has a rule that leads nowhere,** of the state named `source` to `target`, and
nothing else is wrong with it before that: all states are declared, and the rules before it are well
formed. -/
inductive World.Dangles (w : World) (table source target : Value) (t : Streams) : Prop
  | intro {entries : List (Value × Value)} {declarations : List Declaration} {s₁ s₂ : Streams}
    (hEntries : (readEntries table).result w.streams = (.ok entries, s₁))
    (hDeclared : (readDeclarations [] entries).result s₁ = (.ok declarations, s₂))
    (hDangles : StatesDangle (.ofDeclarations declarations) w.machines.length source target
      declarations s₂ t)

-- ---------------------------------------------------------------------------
-- Readings that miss no state
-- ---------------------------------------------------------------------------

/-- Whether a reading never fails because a state is missing. -/
def Reading.MissesNone {α : Type} (r : Reading Cause α) : Prop :=
  ∀ s v referrer t, r.result s ≠ (.error (.unknownState v referrer), t)

namespace Reading.MissesNone

variable {α β : Type}

theorem pure (a : α) : MissesNone (Pure.pure a : Reading Cause α) :=
  fun _ _ _ _ h => by cases congrArg Prod.fst h

/-- Two readings in a row miss no state if neither does. -/
theorem bind {x : Reading Cause α} {k : α → Reading Cause β} (hx : x.MissesNone)
    (hk : ∀ a, (k a).MissesNone) : (x >>= k).MissesNone := by
  intro s v referrer t h
  rcases bind_eq_error.mp h with h | ⟨a, s₁, -, h⟩
  · exact hx _ _ _ _ h
  · exact hk a _ _ _ _ h

/-- A check misses no state if it never reports one. -/
theorem ofExcept {r : Except Cause α} (h : ∀ v referrer, r ≠ .error (.unknownState v referrer)) :
    (Reading.ofExcept r).MissesNone :=
  fun _ v referrer _ hResult => h v referrer (congrArg Prod.fst hResult)

/-- Problems of another kind are not reworded as missing states. -/
theorem mapProblem {ε : Type} {f : ε → Cause} (hf : ∀ e v referrer, f e ≠ .unknownState v referrer)
    (r : Reading ε α) : (r.mapProblem f).MissesNone := by
  intro s v referrer t h
  rw [result_mapProblem] at h
  -- what is reported is the image of a problem of the inner reading
  cases hOutcome : (r.result s).1 with
  | ok a =>
    rw [hOutcome] at h
    cases congrArg Prod.fst h
  | error e =>
    rw [hOutcome] at h
    exact hf e v referrer (Except.error.inj (congrArg Prod.fst h))

end Reading.MissesNone

open Reading (MissesNone)

/-- Reading pairs misses no state if none of the two complaints about pairs is about a state. -/
theorem readPairs_missesNone (v : Value) (notPairs : Cause) (notPair : Nat → Value → Cause)
    (hPairs : ∀ v referrer, notPairs ≠ .unknownState v referrer)
    (hPair : ∀ i item v referrer, notPair i item ≠ .unknownState v referrer) :
    (readPairs v notPairs notPair).MissesNone := by
  intro s target referrer t h
  rw [result_readPairs] at h
  cases hItems : s.items? v with
  | none =>
    rw [hItems] at h
    exact hPairs target referrer (Except.error.inj (congrArg Prod.fst h))
  | some items =>
    rw [hItems] at h
    have hOutcome := congrArg Prod.fst h
    cases hItem : items[(leadingPairs items).length]? with
    | none =>
      simp only [hItem] at hOutcome
      cases hOutcome
    | some item =>
      simp only [hItem] at hOutcome
      exact hPair _ item target referrer (Except.error.inj hOutcome)

/-- Reading the entries of a table misses no state. -/
theorem readEntries_missesNone (table : Value) : (readEntries table).MissesNone := by
  unfold readEntries
  split
  · exact .pure _
  · exact readPairs_missesNone _ _ _ nofun nofun

/-- Reading a declaration misses no state: names are not looked up yet. -/
theorem readDeclaration_missesNone (declared : List Value) (name definition : Value) :
    (readDeclaration declared name definition).MissesNone := by
  -- three checks make a declaration: the name, the definition, and each action list
  have hName (v : Value) (referrer : Option Value) :
      checkName declared name ≠ .error (.unknownState v referrer) := by
    unfold checkName
    split
    · nofun
    · split <;> nofun
  have hDefinition (v : Value) (referrer : Option Value) :
      checkDefinition name definition ≠ .error (.unknownState v referrer) := by
    unfold checkDefinition
    split
    · nofun
    · dsimp only
      split <;> nofun
    · nofun
  have hActions (slot : ActionSlot) (v : Value) :
      (readActionsAt (.slot slot name) v).MissesNone := .mapProblem nofun _
  refine (MissesNone.ofExcept hName).bind fun _ => ?_
  refine (MissesNone.ofExcept hDefinition).bind fun _ => ?_
  exact (hActions _ _).bind fun _ => (hActions _ _).bind fun _ => (hActions _ _).bind fun _ =>
    .pure _

/-- The declarations of a table are read one after the other, and none misses a state. -/
theorem readDeclarations_missesNone (declared : List Value) (entries : List (Value × Value)) :
    (readDeclarations declared entries).MissesNone := by
  induction entries generalizing declared with
  | nil => exact .pure _
  | cons entry rest ih =>
    exact (readDeclaration_missesNone _ _ _).bind fun _ => (ih _).bind fun _ => .pure _

/-- Reading the pairs of a rules specification misses no state. -/
theorem readRulePairs_missesNone (source spec : Value) :
    (readRulePairs source spec).MissesNone := by
  unfold readRulePairs
  split
  · exact .pure _
  · exact .pure _
  · exact readPairs_missesNone _ _ _ nofun nofun

/-- A rule whose target was found misses no state. -/
theorem readRule_missesNone (source targetName : Value) (target : StateRef) (spec : Value) :
    (readRule source targetName target spec).MissesNone :=
  .mapProblem nofun _

-- ---------------------------------------------------------------------------
-- Readings that miss a state
-- ---------------------------------------------------------------------------

section

variable {m : Machine} {self : MachineRef} {source target v : Value} {referrer : Option Value}
  {s t : Streams}

/-- A rule that leads somewhere is read, and then the others. -/
theorem readRules_cons {spec : Value} {rest : List (Value × Value)} {index : Nat}
    (hFound : m.resolve? self target = some index) :
    readRules m self source ((target, spec) :: rest) = (do
      let rule ← readRule source (m.nameOf index) { machine := self, index } spec
      let others ← readRules m self source rest
      return rule :: others) := by
  rw [readRules, hFound]

/-- A rule whose target resolves to nothing ends the reading of the rules, with the state that
declares them as the referrer. -/
theorem readRules_cons_none {spec : Value} {rest : List (Value × Value)}
    (hUnknown : m.resolve? self target = none) :
    readRules m self source ((target, spec) :: rest) =
      throw (.unknownState target (some source)) := by
  rw [readRules, hUnknown]

/-- **Rules miss a state** exactly if one of them leads nowhere. -/
theorem readRules_unknown {pairs : List (Value × Value)} :
    (readRules m self source pairs).result s = (.error (.unknownState v referrer), t) ↔
      referrer = some source ∧ RulesDangle m self source v pairs s t := by
  constructor
  · intro h
    -- the first rule leads nowhere, or it is well formed and one of the others leads nowhere
    induction pairs generalizing s with
    | nil => cases h
    | cons pair rest ih =>
      obtain ⟨target, spec⟩ := pair
      cases hFound : m.resolve? self target with
      | none =>
        rw [readRules_cons_none hFound] at h
        cases h
        exact ⟨rfl, .intro (List.nil_append _).symm rfl hFound⟩
      | some index =>
        rw [readRules_cons hFound, Reading.bind_eq_error] at h
        rcases h with hFails | ⟨rule, s₁, hRule, h⟩
        · exact absurd hFails (readRule_missesNone _ _ _ _ _ _ _ _)
        rcases Reading.bind_eq_error.mp h with hFails | ⟨_, _, -, hEnd⟩
        · obtain ⟨rfl, @⟨earlier, later, missing, others, rfl, hEarlier, hUnknown⟩⟩ := ih hFails
          have hLonger : (readRules m self source ((target, spec) :: earlier)).result s =
              (.ok (rule :: others), t) := by
            rw [readRules_cons hFound]
            exact Reading.bind_eq_ok.mpr ⟨rule, s₁, hRule,
              Reading.bind_eq_ok.mpr ⟨others, t, hEarlier, rfl⟩⟩
          exact ⟨rfl, .intro (List.cons_append ..).symm hLonger hUnknown⟩
        · cases hEnd
  · rintro ⟨rfl, @⟨earlier, later, spec, rules, rfl, hEarlier, hUnknown⟩⟩
    -- none of the rules before it ends the reading
    induction earlier generalizing s rules with
    | nil =>
      cases hEarlier
      rw [List.nil_append, readRules_cons_none hUnknown]
      rfl
    | cons pair earlier ih =>
      obtain ⟨other, spec'⟩ := pair
      cases hFound : m.resolve? self other with
      | none =>
        rw [readRules_cons_none hFound] at hEarlier
        cases hEarlier
      | some index =>
        rw [readRules_cons hFound] at hEarlier
        obtain ⟨rule, s₁, hRule, hRest⟩ := Reading.bind_eq_ok.mp hEarlier
        obtain ⟨others, s₂, hOthers, hEnd⟩ := Reading.bind_eq_ok.mp hRest
        cases hEnd
        rw [List.cons_append, readRules_cons hFound]
        exact Reading.bind_eq_error.mpr (.inr ⟨rule, s₁, hRule,
          Reading.bind_eq_error.mpr (.inl (ih hOthers))⟩)

/-- **The rules of several states miss a state** exactly if one of them leads nowhere. -/
theorem readAllRules_unknown {declarations : List Declaration} :
    (readAllRules m self declarations).result s = (.error (.unknownState v referrer), t) ↔
      ∃ source, referrer = some source ∧ StatesDangle m self source v declarations s t := by
  constructor
  · intro h
    -- a state fails by its own rules, since pairs that are no pairs are reported in another way
    induction declarations generalizing s with
    | nil => cases h
    | cons d rest ih =>
      rw [readAllRules] at h
      rcases Reading.bind_eq_error.mp h with hFails | ⟨pairs, s₁, hPairs, h⟩
      · exact absurd hFails (readRulePairs_missesNone _ _ _ _ _ _)
      rcases Reading.bind_eq_error.mp h with hFails | ⟨rules, s₂, hRules, h⟩
      · obtain ⟨rfl, hDangles⟩ := readRules_unknown.mp hFails
        exact ⟨d.name, rfl, .intro (List.nil_append _).symm rfl rfl hPairs hDangles⟩
      rcases Reading.bind_eq_error.mp h with hFails | ⟨_, _, -, hEnd⟩
      · obtain ⟨source, rfl, @⟨before, after, d', others, pairs', u₁, u₂, rfl, hSource, hBefore,
          hOwn, hDangles⟩⟩ := ih hFails
        have hLonger : (readAllRules m self (d :: before)).result s = (.ok (rules :: others), u₁) :=
          Reading.bind_eq_ok.mpr ⟨pairs, s₁, hPairs, Reading.bind_eq_ok.mpr
            ⟨rules, s₂, hRules, Reading.bind_eq_ok.mpr ⟨others, u₁, hBefore, rfl⟩⟩⟩
        exact ⟨source, rfl, .intro (List.cons_append ..).symm hSource hLonger hOwn hDangles⟩
      · cases hEnd
  · rintro ⟨source, rfl,
      @⟨before, after, d, rules, pairs, s₁, s₂, rfl, rfl, hBefore, hPairs, hDangles⟩⟩
    have hMisses := readRules_unknown.mpr ⟨rfl, hDangles⟩
    -- none of the states before it ends the reading
    induction before generalizing s rules with
    | nil =>
      cases hBefore
      exact Reading.bind_eq_error.mpr (.inr ⟨pairs, s₂, hPairs,
        Reading.bind_eq_error.mpr (.inl hMisses)⟩)
    | cons first before ih =>
      obtain ⟨firstPairs, u₁, hFirst, hBefore⟩ := Reading.bind_eq_ok.mp hBefore
      obtain ⟨firstRules, u₂, hFirstRules, hBefore⟩ := Reading.bind_eq_ok.mp hBefore
      obtain ⟨others, u₃, hOthers, hEnd⟩ := Reading.bind_eq_ok.mp hBefore
      cases hEnd
      exact Reading.bind_eq_error.mpr (.inr ⟨firstPairs, u₁, hFirst,
        Reading.bind_eq_error.mpr (.inr ⟨firstRules, u₂, hFirstRules,
          Reading.bind_eq_error.mpr (.inl (ih hOthers))⟩)⟩)

end

/-- **A build misses a state** exactly if the table has a rule that leads nowhere, and it blames the
state of that rule. -/
theorem World.construct_unknown {w w' : World} {table v : Value} {referrer : Option Value} :
    w.construct table = (.error (.unknownState v referrer), w') ↔
      ∃ source t, referrer = some source ∧ w' = { w with streams := t } ∧
        w.Dangles table source v t := by
  -- only the last of the three readings, that of the rules, can miss a state
  have hReading (t : Streams) :
      (readTable w.machines.length table).result w.streams =
          (.error (.unknownState v referrer), t) ↔
        ∃ source, referrer = some source ∧ w.Dangles table source v t := by
    constructor
    · intro h
      rcases Reading.bind_eq_error.mp h with hFails | ⟨entries, s₁, hEntries, h⟩
      · exact absurd hFails (readEntries_missesNone _ _ _ _ _)
      rcases Reading.bind_eq_error.mp h with hFails | ⟨declarations, s₂, hDeclared, h⟩
      · exact absurd hFails (readDeclarations_missesNone _ _ _ _ _ _)
      rcases Reading.bind_eq_error.mp h with hFails | ⟨_, _, -, hEnd⟩
      · obtain ⟨source, rfl, hDangles⟩ := readAllRules_unknown.mp hFails
        exact ⟨source, rfl, .intro hEntries hDeclared hDangles⟩
      · cases hEnd
    · rintro ⟨source, rfl, @⟨entries, declarations, s₁, s₂, hEntries, hDeclared, hDangles⟩⟩
      have hMisses := readAllRules_unknown.mpr ⟨source, rfl, hDangles⟩
      exact Reading.bind_eq_error.mpr (.inr ⟨entries, s₁, hEntries,
        Reading.bind_eq_error.mpr (.inr ⟨declarations, s₂, hDeclared,
          Reading.bind_eq_error.mpr (.inl hMisses)⟩)⟩)
  rw [construct]
  constructor
  · intro h
    rcases hResult : (readTable w.machines.length table).result w.streams with ⟨cause | m, t⟩
    · rw [hResult] at h
      cases h
      obtain ⟨source, hReferrer, hDangles⟩ := (hReading t).mp hResult
      exact ⟨source, t, hReferrer, rfl, hDangles⟩
    · rw [hResult] at h
      cases h
  · rintro ⟨source, t, hReferrer, rfl, hDangles⟩
    rw [(hReading t).mpr ⟨source, hReferrer, hDangles⟩]

-- ---------------------------------------------------------------------------
-- Who is blamed
-- ---------------------------------------------------------------------------

/-- Whether a value refers to none of the states that are declared under some names: a state of
another machine does not, and neither does a value that equals no name. -/
def Undeclared (self : MachineRef) (names : List Value) : Value → Prop
  | .state ref => ¬ (ref.machine = self ∧ ref.index < names.length)
  | v => ∀ name ∈ names, name.eqv v = false

/-- A target that resolves to nothing is declared by none of the names. -/
theorem Machine.undeclared_of_resolve? {m : Machine} {self : MachineRef} {names : List Value}
    {target : Value} (hStates : m.states.map State.name = names)
    (hHashable : ∀ name ∈ names, name.hashable = true) (h : m.resolve? self target = none) :
    Undeclared self names target := by
  -- a state object is looked up by its machine, every other value by its name
  by_cases hState : ∃ ref, target = .state ref
  · obtain ⟨ref, rfl⟩ := hState
    intro hOwn
    rw [← hStates, List.length_map] at hOwn
    rw [resolve?, if_pos hOwn] at h
    cases h
  · have hValue : ∀ ref, target ≠ .state ref := fun ref hRef => hState ⟨ref, hRef⟩
    rw [resolve?_eq_placeOf hStates hHashable fun ref hRef => absurd hRef (hValue ref), placeOf,
      List.findIdx?_eq_none_iff] at h
    cases target with
    | state ref => exact absurd rfl (hValue ref)
    | _ => exact h

/-- States are declared under the names of their entries. -/
theorem names_of_readDeclarations {declared : List Value} {entries : List (Value × Value)}
    {ds : List Declaration} {s s' : Streams}
    (h : (readDeclarations declared entries).result s = (.ok ds, s')) :
    ds.map Declaration.name = entries.map Prod.fst := by
  induction entries generalizing declared ds s with
  | nil =>
    cases h
    rfl
  | cons entry rest ih =>
    obtain ⟨name, definition⟩ := entry
    obtain ⟨d, _, hFirst, h⟩ := Reading.bind_eq_ok.mp h
    obtain ⟨others, _, hOthers, hEnd⟩ := Reading.bind_eq_ok.mp h
    cases hEnd
    rw [List.map_cons, List.map_cons, ih hOthers, (readDeclaration_ok hFirst).1]

/-- The state that is blamed is declared in the table, and what it is blamed for is not. -/
theorem World.Dangles.parties {w : World} {table source target : Value} {t : Streams}
    (h : w.Dangles table source target t) :
    source ∈ w.streams.names table ∧ source.hashable = true ∧
      Undeclared w.machines.length (w.streams.names table) target := by
  obtain @⟨entries, declarations, s₁, s₂, hEntries, hDeclared, hDangles⟩ := h
  obtain @⟨before, after, d, _, pairs, _, _, rfl, rfl, -, -, hRules⟩ := hDangles
  obtain ⟨-, -, hUnknown⟩ := hRules
  -- the names in the table are those of the declarations that were read
  have hNames : w.streams.names table = (before ++ d :: after).map Declaration.name := by
    have hOutcome := (readEntries_reports (s := w.streams) table).outcome
    rw [hEntries] at hOutcome
    have hPairs : w.streams.pairs table = entries := (reported_eq_ok_iff.mp hOutcome.symm).2
    rw [Streams.names, hPairs, names_of_readDeclarations hDeclared]
  have hHashable (name : Value) (hName : name ∈ w.streams.names table) :
      name.hashable = true := by
    rw [hNames] at hName
    obtain ⟨other, hOther, rfl⟩ := List.mem_map.mp hName
    exact ((readDeclarations_ok hDeclared).2 other hOther).1
  have hSource : d.name ∈ w.streams.names table := by simp [hNames]
  have hStates : (Machine.ofDeclarations (before ++ d :: after)).states.map State.name =
      w.streams.names table := by
    simp [Machine.ofDeclarations, Machine.ofStates, hNames, Function.comp_def]
  exact ⟨hSource, hHashable _ hSource, Machine.undeclared_of_resolve? hStates hHashable hUnknown⟩

-- ---------------------------------------------------------------------------
-- What is said of a missing state
-- ---------------------------------------------------------------------------

/-- That somebody refers to a missing state is said in another way than that it is missing. -/
theorem unknown_ne_missing (a b : String) : "Unknown state " ++ a ≠ "No such state " ++ b := by
  intro h
  have hFirst := congrArg (fun s : String => s.toList.head?) h
  simp at hFirst

namespace Config

variable {handler : Handler} {w w' : World} {m : MachineRef} {v : Value} {fault : Fault}

/-- When a state is looked up in vain, nobody is said to refer to it. -/
theorem fault_of_resolve (h : (begin (Run.resolve m v) w).Ends handler (.error fault) w') :
    fault = w.fault (.unknownState (w.reported v) none) := by
  -- a look-up has one failure, and it does not fail when it finds a state
  cases hFound : (w.machine m).resolve? m v with
  | none =>
    obtain ⟨hFault, -⟩ := h.unique (Run.Refuses.resolve hFound).fails
    exact Except.error.inj hFault
  | some index =>
    have hAnswer : (Query.resolve m v).answer w = .ok (some { machine := m, index }) := by
      rw [Query.answer, hFound]
      rfl
    have hFinds : (begin (Run.resolve m v) w).Ends handler (.ok { machine := m, index }) w :=
      leads_look hAnswer _
    cases (h.unique hFinds).1

end Config

/-- **How a table is treated that has a rule that leads nowhere.** `declared` are the names in the
table. -/
structure World.Attributes (handler : Handler) (w : World) (table : Value) : Prop where
  /-- The build fails, whatever options were asked for. It tells the target and the state that the
  rule belongs to, and does nothing besides reading the table. -/
  fails : ∀ source target t, w.Dangles table source target t → ∀ options, ∃ ds,
    (Config.begin (Run.build table options) w).Completes handler ds
        (.error (w.fault (.unknownState target (some source)))) { w with streams := t } ∧
      ∀ d ∈ ds, d.act = .perform (.construct table)
  /-- The state is declared in the table, and the target is not. -/
  parties : ∀ source target t, w.Dangles table source target t →
    source ∈ w.streams.names table ∧ source.hashable = true ∧
      Undeclared w.machines.length (w.streams.names table) target
  /-- There is no other way in which a build fails because a state is missing. -/
  only : ∀ target referrer w', w.construct table = (.error (.unknownState target referrer), w') →
    ∃ source t, referrer = some source ∧ w' = { w with streams := t } ∧
      w.Dangles table source target t
  /-- The message names both, unless the state is named null. -/
  names : ∀ source target, source ≠ .null →
    (w.fault (.unknownState target (some source))).message =
      "Unknown state " ++ inQuotes (w.plain target) ++ " referenced by state " ++
        inQuotes (w.plain source)
  /-- Then it is not the message of any look-up that fails. -/
  differs : ∀ source target, source ≠ .null → ∀ m v w₁ w₂ fault,
    (Config.begin (Run.resolve m v) w₁).Ends handler (.error fault) w₂ →
      fault.message ≠ (w.fault (.unknownState target (some source))).message
  /-- A state named null counts as nobody. -/
  nobody : ∀ target, (w.fault (.unknownState target (some .null))).message =
    (w.fault (.unknownState target none)).message

namespace Config

/-- **A state that is missing is told with the state that refers to it.** -/
theorem unknown_target (handler : Handler) (w : World) (table : Value) :
    w.Attributes handler table := by
  -- a referrer that is not nothing is named in the message
  have hNames (source target : Value) (hSource : source ≠ .null) :
      (w.fault (.unknownState target (some source))).message =
        "Unknown state " ++ inQuotes (w.plain target) ++ " referenced by state " ++
          inQuotes (w.plain source) := by
    cases source with
    | null => exact absurd rfl hSource
    | _ => rfl
  exact
    { fails := by
        intro source target t hDangles options
        have hConstruct : w.construct table =
            (.error (.unknownState target (some source)), { w with streams := t }) :=
          World.construct_unknown.mpr ⟨source, t, rfl, rfl, hDangles⟩
        let p : Primitive MachineRef := .construct table
        have hEffect : p.effect w =
            (.error (.unknownState target (some source)), { w with streams := t }) := hConstruct
        refine ⟨p.deeds w, completes_bind.mpr (.inl ⟨_, completes_act.mpr ?_, rfl⟩),
          fun d hd => by rw [Primitive.mem_deeds hd]⟩
        rw [hEffect]
        exact ⟨rfl, rfl, rfl⟩
      parties := fun _ _ _ hDangles => hDangles.parties
      only := fun _ _ _ hFails => World.construct_unknown.mp hFails
      names := hNames
      differs := by
        intro source target hSource m v w₁ w₂ fault hFails
        rw [hNames source target hSource, fault_of_resolve hFails, String.append_assoc,
          String.append_assoc]
        exact (unknown_ne_missing _ _).symm
      nobody := fun _ => rfl }

/-- A house with a way from the cellar to the attic, which is declared later, and one to a garden,
which is not. -/
def house : Value :=
  .map
    [(.text "cellar", .map [(.text "rules", .list
        [.list [.text "attic", .bool true], .list [.text "garden", .int 1]])]),
      (.text "attic", .null)]

/-- The house refers to a cellar that it does not declare, in the rules of its garden. -/
theorem house_dangles :
    World.empty.Dangles house (.text "cellar") (.text "garden") World.empty.streams :=
  .intro rfl rfl (.intro (List.nil_append _).symm rfl rfl rfl
    (.intro List.singleton_append.symm rfl rfl))

/-- It is the cellar from which the garden is missing. -/
theorem unknown_target_house :
    let fault := World.empty.fault (.unknownState (.text "garden") (some (.text "cellar")))
    fault.message = "Unknown state \"garden\" referenced by state \"cellar\"" ∧
      ∃ ds, (begin (Run.build house none) World.empty).Completes penniless ds (.error fault)
        World.empty := by
  intro fault
  have hAttributes := unknown_target penniless World.empty house
  obtain ⟨ds, hFails, -⟩ := hAttributes.fails _ _ _ house_dangles none
  exact ⟨by decide +kernel, ds, hFails⟩

/-- A state named null is declared, and refers to a state that is missing. -/
theorem nobody_dangles :
    World.empty.Dangles
      (.list [.list [.null, .map [(.text "rules", .list [.list [.text "gone", .int 1]])]]])
      .null (.text "gone") World.empty.streams :=
  .intro rfl rfl (.intro (List.nil_append _).symm rfl rfl rfl
    (.intro (List.nil_append _).symm rfl rfl))

/-- The failure does not tell that it does. -/
theorem not_every_missing_state_is_attributed :
    ¬ ∀ (w : World) (table source target : Value) (t : Streams),
      w.Dangles table source target t →
        (w.fault (.unknownState target (some source))).message ≠
          (w.fault (.unknownState target none)).message :=
  fun h => h _ _ _ _ _ nobody_dangles rfl

end Config

end RuleMachine
