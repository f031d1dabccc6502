import RuleMachine.Definition.Table

/-!
# What a table guarantees once it was read

A machine that was read from a table has not been started, no two of its states have the same
name, and every rule leads to one of its own states.

Main statement: `readTable_fresh`.
-/

namespace RuleMachine

/-! ## Well-formed tables -/

/-- The states of a machine are well formed: their names are different from each other, and the
rules lead to states of the same machine, whose reference is `ref`. -/
structure Machine.WellFormed (ref : MachineRef) (m : Machine) : Prop where
  distinct : ∀ i < m.states.length, ∀ j < m.states.length, i ≠ j →
    (m.nameOf i).eqv (m.nameOf j) = false
  targets : ∀ i < m.states.length, ∀ rule ∈ (m.state i).rules,
    rule.target.machine = ref ∧ rule.target.index < m.states.length

/-- A machine that has not been used. -/
structure Machine.Unused (m : Machine) : Prop where
  current : m.current = none
  history : m.history = []
  visits : ∀ i, (m.state i).visits = []

-- ---------------------------------------------------------------------------
-- What readings come to
-- ---------------------------------------------------------------------------

section

variable {ε : Type}

/-- To read the items of a value takes all of them from it. -/
theorem result_readItems? (v : Value) (s : Streams) :
    (readItems? v : Reading ε _).result s =
      match s.items? v with
      | none => (.ok none, s)
      | some items => (.ok (some items), s.take v items.length) := by
  show (match s.items? v with
    | none => (Pure.pure none : Reading ε (Option (List Value)))
    | some items => do
      set (s.take v items.length)
      return some items) s = _
  cases s.items? v <;> rfl

/-- The pairs among items, up to the first item that is none. -/
def leadingPairs (items : List Value) : List (Option (Value × Value)) :=
  (items.map Value.pair?).takeWhile Option.isSome

/-- To read pairs takes the leading pairs, and one item more to see what is wrong with it or that
there is none. -/
theorem result_readPairs (v : Value) (notPairs : ε) (notPair : Nat → Value → ε) (s : Streams) :
    (readPairs v notPairs notPair).result s =
      match s.items? v with
      | none => (.error notPairs, s)
      | some items =>
        (match items[(leadingPairs items).length]? with
          | some item => .error (notPair (leadingPairs items).length item)
          | none => .ok ((leadingPairs items).filterMap id),
          s.take v ((leadingPairs items).length + 1)) := by
  show (match s.items? v with
    | none => (MonadExcept.throw notPairs : Reading ε (List (Value × Value)))
    | some items => do
      set (s.take v ((leadingPairs items).length + 1))
      match items[(leadingPairs items).length]? with
      | some item => MonadExcept.throw (notPair (leadingPairs items).length item)
      | none => return (leadingPairs items).filterMap id) s = _
  -- the reading takes first and complains then, so both cases take as much
  cases s.items? v with
  | none => rfl
  | some items =>
    show (match items[(leadingPairs items).length]? with
      | some item => (MonadExcept.throw (notPair (leadingPairs items).length item) :
          Reading ε (List (Value × Value)))
      | none => Pure.pure ((leadingPairs items).filterMap id))
        (s.take v ((leadingPairs items).length + 1)) = (_, _)
    cases items[(leadingPairs items).length]? <;> rfl

end

-- ---------------------------------------------------------------------------
-- Names
-- ---------------------------------------------------------------------------

/-- A name that passes the check is hashable and new. -/
theorem checkName_ok {declared : List Value} {name : Value} (h : checkName declared name = .ok ()) :
    name.hashable = true ∧ ∀ other ∈ declared, other.eqv name = false := by
  unfold checkName at h
  split at h
  · cases h
  · rename_i hHashable
    split at h
    · cases h
    · rename_i hAny
      exact ⟨by simpa using hHashable, by simpa using hAny⟩

/-- A declaration that was read has the name it was given, and that name is a new one. -/
theorem readDeclaration_ok {declared : List Value} {name definition : Value} {d : Declaration}
    {s s' : Streams} (h : (readDeclaration declared name definition).result s = (.ok d, s')) :
    d.name = name ∧ name.hashable = true ∧ ∀ other ∈ declared, other.eqv name = false := by
  unfold readDeclaration at h
  obtain ⟨_, _, hName, h⟩ := Reading.bind_eq_ok.mp h
  obtain ⟨entries, _, _, h⟩ := Reading.bind_eq_ok.mp h
  obtain ⟨onEnter, _, _, h⟩ := Reading.bind_eq_ok.mp h
  obtain ⟨body, _, _, h⟩ := Reading.bind_eq_ok.mp h
  obtain ⟨onExit, _, _, h⟩ := Reading.bind_eq_ok.mp h
  have hChecked : checkName declared name = .ok () := congrArg Prod.fst hName
  have hd := congrArg Prod.fst h
  obtain rfl := Except.ok.inj hd
  exact ⟨rfl, checkName_ok hChecked⟩

/-- Of names that were declared one after the other, none is equal to an earlier one. -/
theorem readDeclarations_ok {declared : List Value} {entries : List (Value × Value)}
    {ds : List Declaration} {s s' : Streams}
    (h : (readDeclarations declared entries).result s = (.ok ds, s')) :
    (ds.map Declaration.name).Pairwise (fun a b => a.eqv b = false ∧ b.eqv a = false) ∧
      ∀ d ∈ ds, d.name.hashable = true ∧ ∀ other ∈ declared, other.eqv d.name = false := by
  induction entries generalizing declared ds s s' with
  | nil =>
    obtain rfl := Except.ok.inj (congrArg Prod.fst h)
    simp
  | cons entry rest ih =>
    obtain ⟨name, definition⟩ := entry
    unfold readDeclarations at h
    obtain ⟨first, _, hFirst, h⟩ := Reading.bind_eq_ok.mp h
    obtain ⟨others, _, hOthers, h⟩ := Reading.bind_eq_ok.mp h
    obtain rfl := Except.ok.inj (congrArg Prod.fst h)
    obtain ⟨rfl, hHashable, hNew⟩ := readDeclaration_ok hFirst
    obtain ⟨hPairwise, hRest⟩ := ih hOthers
    constructor
    · rw [List.map_cons, List.pairwise_cons]
      refine ⟨fun name hMem => ?_, hPairwise⟩
      obtain ⟨d, hd, rfl⟩ := List.mem_map.mp hMem
      -- the later names were checked against this one, since it was declared by then
      have hne : first.name.eqv d.name = false :=
        (hRest d hd).2 _ (List.mem_append_right _ List.mem_cons_self)
      exact ⟨hne, by rw [Value.eqv_comm (hRest d hd).1, hne]⟩
    · intro d hd
      rcases List.mem_cons.mp hd with rfl | hd
      · exact ⟨hHashable, hNew⟩
      · exact ⟨(hRest d hd).1, fun other hOther =>
          (hRest d hd).2 other (List.mem_append_left _ hOther)⟩

-- ---------------------------------------------------------------------------
-- Rules
-- ---------------------------------------------------------------------------

/-- A value refers to a place in the table or to none. -/
theorem Machine.lt_of_find? {m : Machine} {name : Value} {index : Nat}
    (h : m.find? name = some index) : index < m.states.length := by
  unfold find? at h
  split at h
  · obtain ⟨hLt, -⟩ := List.findIdx?_eq_some_iff_getElem.mp h
    exact hLt
  · cases h

/-- What resolves has the index of a declared state. -/
theorem Machine.lt_of_resolve? {m : Machine} {self : MachineRef} {v : Value} {index : Nat}
    (h : m.resolve? self v = some index) : index < m.states.length := by
  unfold resolve? at h
  split at h
  · split at h
    · rename_i hRef
      obtain rfl := Option.some.inj h
      exact hRef.2
    · cases h
  · exact lt_of_find? h

/-- A rule leads where it was meant to lead, whatever its definition says. -/
theorem readRule_target {source targetName spec : Value} {target : StateRef} {rule : Rule}
    {s s' : Streams} (h : (readRule source targetName target spec).result s = (.ok rule, s')) :
    rule.target = target := by
  unfold readRule at h
  have h := Reading.mapProblem_eq_ok.mp h
  unfold readRuleTo at h
  -- each form of a rule is given the target that was resolved before
  split at h
  · obtain ⟨⟨predicate, label, actionList⟩, _, _, h⟩ := Reading.bind_eq_ok.mp h
    obtain ⟨actions, _, _, h⟩ := Reading.bind_eq_ok.mp h
    obtain rfl := Except.ok.inj (congrArg Prod.fst h)
    rfl
  · cases congrArg Prod.fst h
  · cases congrArg Prod.fst h
  · obtain ⟨actions, _, _, h⟩ := Reading.bind_eq_ok.mp h
    obtain rfl := Except.ok.inj (congrArg Prod.fst h)
    rfl
  · obtain ⟨actions, _, _, h⟩ := Reading.bind_eq_ok.mp h
    obtain rfl := Except.ok.inj (congrArg Prod.fst h)
    rfl
  · obtain rfl := Except.ok.inj (congrArg Prod.fst h)
    rfl

/-- The rules that are read lead to declared states of the machine itself. -/
theorem readRules_targets {m : Machine} {self : MachineRef} {source : Value}
    {pairs : List (Value × Value)} {rules : List Rule} {s s' : Streams}
    (h : (readRules m self source pairs).result s = (.ok rules, s')) :
    ∀ rule ∈ rules, rule.target.machine = self ∧ rule.target.index < m.states.length := by
  induction pairs generalizing rules s s' with
  | nil =>
    obtain rfl := Except.ok.inj (congrArg Prod.fst h)
    simp
  | cons pair rest ih =>
    obtain ⟨target, spec⟩ := pair
    unfold readRules at h
    -- a target that does not resolve ends the reading
    split at h
    · rename_i index hIndex
      obtain ⟨rule, _, hRule, h⟩ := Reading.bind_eq_ok.mp h
      obtain ⟨others, _, hOthers, h⟩ := Reading.bind_eq_ok.mp h
      obtain rfl := Except.ok.inj (congrArg Prod.fst h)
      intro r hr
      rcases List.mem_cons.mp hr with rfl | hr
      · rw [readRule_target hRule]
        exact ⟨rfl, Machine.lt_of_resolve? hIndex⟩
      · exact ih hOthers r hr
    · cases congrArg Prod.fst h

/-- There is one list of rules for each declaration, and all of them lead to declared states. -/
theorem readAllRules_targets {m : Machine} {self : MachineRef} {ds : List Declaration}
    {rules : List (List Rule)} {s s' : Streams}
    (h : (readAllRules m self ds).result s = (.ok rules, s')) :
    rules.length = ds.length ∧ ∀ rs ∈ rules, ∀ rule ∈ rs,
      rule.target.machine = self ∧ rule.target.index < m.states.length := by
  induction ds generalizing rules s s' with
  | nil =>
    obtain rfl := Except.ok.inj (congrArg Prod.fst h)
    simp
  | cons d rest ih =>
    unfold readAllRules at h
    obtain ⟨pairs, _, _, h⟩ := Reading.bind_eq_ok.mp h
    obtain ⟨first, _, hFirst, h⟩ := Reading.bind_eq_ok.mp h
    obtain ⟨others, _, hOthers, h⟩ := Reading.bind_eq_ok.mp h
    obtain rfl := Except.ok.inj (congrArg Prod.fst h)
    obtain ⟨hLength, hTargets⟩ := ih hOthers
    refine ⟨by simp [hLength], fun rs hrs => ?_⟩
    rcases List.mem_cons.mp hrs with rfl | hrs
    · exact readRules_targets hFirst
    · exact hTargets rs hrs

-- ---------------------------------------------------------------------------
-- The machine
-- ---------------------------------------------------------------------------

/-- The machine of declared states that have got their rules. -/
def Machine.withRules (ds : List Declaration) (rules : List (List Rule)) : Machine :=
  { Machine.ofDeclarations ds with
    states :=
      (Machine.ofDeclarations ds).states.zipWith (fun s rs => { s with rules := rs }) rules }

/-- Each state of the machine is one of the declared ones, with its rules and no visits. -/
theorem Machine.state_withRules {ds : List Declaration} {rules : List (List Rule)}
    (hLength : rules.length = ds.length) (i : Nat) (hi : i < ds.length) :
    (withRules ds rules).state i =
      { name := ds[i].name, onEnter := ds[i].onEnter, body := ds[i].body, onExit := ds[i].onExit
        rules := rules[i], visits := [] } := by
  simp [withRules, state, ofDeclarations, ofStates, hi, hLength]

theorem Machine.length_withRules {ds : List Declaration} {rules : List (List Rule)}
    (hLength : rules.length = ds.length) : (withRules ds rules).states.length = ds.length := by
  simp [withRules, ofDeclarations, ofStates, hLength]

/-- A machine that was just read has no notes. -/
theorem readTable_notes {self : MachineRef} {table : Value} {m : Machine} {s s' : Streams}
    (h : (readTable self table).result s = (.ok m, s')) : m.notes = [] := by
  unfold readTable at h
  obtain ⟨entries, _, _, h⟩ := Reading.bind_eq_ok.mp h
  obtain ⟨ds, _, _, h⟩ := Reading.bind_eq_ok.mp h
  obtain ⟨rules, _, _, h⟩ := Reading.bind_eq_ok.mp h
  obtain rfl : Machine.withRules ds rules = m := Except.ok.inj (congrArg Prod.fst h)
  rfl

/-- **A machine that was read from a table** is well formed and unused. -/
theorem readTable_fresh {self : MachineRef} {table : Value} {m : Machine} {s s' : Streams}
    (h : (readTable self table).result s = (.ok m, s')) : m.WellFormed self ∧ m.Unused := by
  unfold readTable at h
  obtain ⟨entries, _, _, h⟩ := Reading.bind_eq_ok.mp h
  obtain ⟨ds, _, hDeclarations, h⟩ := Reading.bind_eq_ok.mp h
  obtain ⟨rules, _, hRules, h⟩ := Reading.bind_eq_ok.mp h
  obtain rfl : Machine.withRules ds rules = m := Except.ok.inj (congrArg Prod.fst h)
  obtain ⟨hNames, -⟩ := readDeclarations_ok hDeclarations
  obtain ⟨hLength, hTargets⟩ := readAllRules_targets hRules
  have hStates := Machine.length_withRules hLength
  refine ⟨⟨?_, ?_⟩, rfl, rfl, ?_⟩
  · -- names, compared in whichever order
    intro i hi j hj hij
    rw [hStates] at hi hj
    simp only [Machine.nameOf, Machine.state_withRules hLength i hi,
      Machine.state_withRules hLength j hj]
    have hPair := List.pairwise_iff_getElem.mp hNames
    simp only [List.length_map, List.getElem_map] at hPair
    rcases Nat.lt_or_gt_of_ne hij with hlt | hgt
    · exact (hPair i j hi hj hlt).1
    · exact (hPair j i hj hi hgt).2
  · -- targets
    intro i hi rule hRule
    rw [hStates] at hi ⊢
    rw [Machine.state_withRules hLength i hi] at hRule
    have hTarget := hTargets rules[i] (List.getElem_mem _) rule hRule
    simpa [Machine.ofDeclarations, Machine.ofStates] using hTarget
  · -- visits
    intro i
    by_cases hi : i < ds.length
    · rw [Machine.state_withRules hLength i hi]
    · have hNone : (Machine.withRules ds rules).states[i]? = none :=
        List.getElem?_eq_none (by omega)
      rw [Machine.state, hNone]
      rfl

end RuleMachine
