import Mathlib.Algebra.BigOperators.Group.Finset.Piecewise
import Mathlib.Algebra.Ring.Nat
import Mathlib.Data.List.Basic
import RuleMachine.Proofs.Moves
import RuleMachine.Proofs.Tables

/-!
# History, current state and positions agree

A machine keeps the same information four times: the history, the current state, and in each
state the positions of its visits, in a table of names. `Machine.Consistent` says that the four
agree. Each move of a machine keeps it so, and as everything that happens to a machine is a
move, machines are consistent at every moment of every execution, also while a function is
being called in the middle of an entry.

* `Config.names_hashable`: the names of states are keys, at every moment.
* `Config.machines_agree`: history, current and previous state, positions and table agree, at every
  moment.
-/

namespace RuleMachine

namespace Machine

/-- The positions in the history of the visits under a name. -/
def positions (m : Machine) (name : Value) : List Nat :=
  m.stack.findIdxs fun other => other.eqv name

/-- What a machine keeps about its history agrees. `ref` is the reference of the machine. -/
structure Consistent (ref : MachineRef) (m : Machine) : Prop extends m.WellFormed ref where
  /-- There is no current state exactly when there was no visit. -/
  current_none : m.current = none ↔ m.history = []
  /-- The current state is the one visited last. -/
  current_last : ∀ i, m.current = some i →
    i < m.states.length ∧ m.stack.getLast? = some (m.nameOf i)
  /-- A state has the positions of the visits under its name. -/
  visits : ∀ i < m.states.length, (m.state i).visits = m.positions (m.nameOf i)
  /-- Only states of the table were visited. -/
  visited : ∀ name ∈ m.stack, ∃ i < m.states.length, name = m.nameOf i

-- ---------------------------------------------------------------------------
-- Each change keeps a machine consistent
-- ---------------------------------------------------------------------------

/-- Being well formed is a matter of the table. -/
theorem WellFormed.of_declared {ref : MachineRef} {m m' : Machine} (h : m.WellFormed ref)
    (hDeclared : m'.declared = m.declared) : m'.WellFormed ref where
  distinct i hi j hj hij := by
    rw [length_of_declared hDeclared] at hi hj
    rw [nameOf_of_declared hDeclared, nameOf_of_declared hDeclared]
    exact h.distinct i hi j hj hij
  targets i hi rule hRule := by
    rw [length_of_declared hDeclared] at hi ⊢
    rw [rules_of_declared hDeclared] at hRule
    exact h.targets i hi rule hRule

/-- Declared names are equal only if they are the same declaration's. -/
theorem WellFormed.eqv_iff {ref : MachineRef} {m : Machine} (h : m.WellFormed ref) {i j : Nat}
    (hi : i < m.states.length) (hj : j < m.states.length) :
    (m.nameOf i).eqv (m.nameOf j) = true ↔ i = j := by
  constructor
  · intro hEqv
    -- two different declarations have names that are not equal
    by_contra hij
    rw [h.distinct i hi j hj hij] at hEqv
    cases hEqv
  · rintro rfl
    exact Value.eqv_refl _

/-- A machine without visits is consistent. -/
theorem WellFormed.consistent_of_unused {ref : MachineRef} {m : Machine} (h : m.WellFormed ref)
    (hUnused : m.Unused) : m.Consistent ref where
  toWellFormed := h
  current_none := by simp [hUnused.current, hUnused.history]
  current_last i hi := by simp [hUnused.current] at hi
  visits i _ := by simp [hUnused.visits i, positions, stack, hUnused.history]
  visited name hName := by simp [stack, hUnused.history] at hName

/-- After a reset a machine is unused. -/
theorem unused_reset (m : Machine) : m.reset.Unused where
  current := rfl
  history := rfl
  visits i := by
    simp only [state, reset, List.getElem?_map]
    cases m.states[i]? <;> rfl

/-- An entry appends the next position to the visits of the entered state, and to no others. -/
theorem visits_enter {m : Machine} {index : Nat} (h : index < m.states.length) (i : Nat) :
    ((m.enter index).state i).visits =
      (m.state i).visits ++ if index = i then [m.history.length] else [] := by
  rw [enter_of_lt h]
  simp only [state, List.getElem?_modify]
  by_cases hi : index = i
  · subst hi
    simp [h]
  · simp only [if_neg hi, List.append_nil]
    cases m.states[i]? <;> rfl

/-- Entering a state adds its position to the visits under its name, and to no others. -/
theorem positions_enter {m : Machine} {index : Nat} (h : index < m.states.length) (name : Value) :
    (m.enter index).positions name =
      m.positions name ++ if (m.nameOf index).eqv name then [m.history.length] else [] := by
  rw [positions, stack_enter h, List.findIdxs_append, List.findIdxs_singleton, positions]
  simp [stack]

/-- An entry keeps a machine consistent. -/
theorem Consistent.enter {ref : MachineRef} {m : Machine} (hm : m.Consistent ref) {index : Nat}
    (h : index < m.states.length) : (m.enter index).Consistent ref where
  toWellFormed := hm.toWellFormed.of_declared (declared_enter m index)
  current_none := by simp [enter_of_lt h]
  current_last i hi := by
    rw [current_enter h] at hi
    obtain rfl := Option.some.inj hi
    rw [length_of_declared (declared_enter m index), stack_enter h,
      nameOf_of_declared (declared_enter m index)]
    exact ⟨h, List.getLast?_concat⟩
  visits i hi := by
    rw [length_of_declared (declared_enter m index)] at hi
    rw [visits_enter h, nameOf_of_declared (declared_enter m index), positions_enter h,
      hm.visits i hi]
    simp only [hm.eqv_iff h hi]
  visited name hName := by
    rw [length_of_declared (declared_enter m index)]
    simp only [nameOf_of_declared (declared_enter m index)]
    rw [stack_enter h, List.mem_append, List.mem_singleton] at hName
    -- the name that was just pushed is the declared name of the state entered
    rcases hName with hName | rfl
    · exact hm.visited name hName
    · exact ⟨index, h, rfl⟩

/-- What is said about a machine rests on its table, its stack, its current state and its
positions. -/
theorem Consistent.of_same {ref : MachineRef} {m m' : Machine} (hm : m.Consistent ref)
    (hStates : m'.states = m.states) (hStack : m'.stack = m.stack)
    (hCurrent : m'.current = m.current) : m'.Consistent ref := by
  have hDeclared : m'.declared = m.declared := by rw [declared, hStates, declared]
  -- only the names in the history are compared, so whether it is empty is read off the stack
  have hHistory : m'.history = [] ↔ m.history = [] := by
    rw [← List.map_eq_nil_iff (f := Visit.name), ← List.map_eq_nil_iff (f := Visit.name)]
    exact iff_of_eq (congrArg (· = []) hStack)
  exact
    { toWellFormed := hm.toWellFormed.of_declared hDeclared
      current_none := by rw [hCurrent, hHistory, hm.current_none]
      current_last := by
        rw [hCurrent, hStates, hStack]
        simpa only [nameOf_of_declared hDeclared] using hm.current_last
      visits := by
        simp only [positions, hStack, nameOf_of_declared hDeclared, state, hStates]
        exact hm.visits
      visited := by
        simp only [hStack, nameOf_of_declared hDeclared, hStates]
        exact hm.visited }

/-- An assignment keeps a machine consistent: it changes what a visit stores and not which visits
there are. -/
theorem Consistent.setSlot {ref : MachineRef} {m : Machine} (hm : m.Consistent ref) (index : Nat)
    (slot : Slot) (v : Value) : (m.setSlot index slot v).Consistent ref := by
  refine hm.of_same (states_setSlot m index slot v) (stack_setSlot m index slot v) ?_
  unfold Machine.setSlot
  split <;> rfl

theorem Consistent.adjust {ref : MachineRef} {m : Machine} (hm : m.Consistent ref)
    (a : Adjustment) : (a.apply m).Consistent ref := by
  cases a <;> exact hm.of_same rfl rfl rfl

theorem Consistent.reset {ref : MachineRef} {m : Machine} (hm : m.Consistent ref) :
    m.reset.Consistent ref :=
  (hm.toWellFormed.of_declared (declared_reset m)).consistent_of_unused m.unused_reset

/-- The machine that stands for one that was never built is consistent too. -/
theorem consistent_default (ref : MachineRef) : (default : Machine).Consistent ref := by
  refine WellFormed.consistent_of_unused ⟨?_, ?_⟩ ⟨rfl, rfl, fun _ => rfl⟩
  · intro i hi
    exact absurd hi (Nat.not_lt_zero i)
  · intro i hi
    exact absurd hi (Nat.not_lt_zero i)

end Machine

/-- **Every move keeps machines consistent.** -/
theorem World.Move.consistent {w : World} {ref : MachineRef} {resets : Prop} {m : Machine}
    (hMove : w.Move ref resets m) (h : (w.machine ref).Consistent ref) : m.Consistent ref := by
  cases hMove with
  | stay => exact h
  | enter index hIndex => exact h.enter hIndex
  | put index slot v => exact h.setSlot index slot v
  | adjust a => exact h.adjust a
  | reset _ => exact h.reset
  -- a machine that was just built has made no visit
  | build m table s s' hRef hTable =>
    obtain ⟨hWellFormed, hUnused⟩ := readTable_fresh hTable
    exact hWellFormed.consistent_of_unused hUnused

/-- Machines are consistent at every moment. -/
theorem Config.consistent {α : Type} (handler : Handler) (p : Program α) (n : Nat)
    (ref : MachineRef) :
    (((Config.start p).after .standard handler n).world.machine ref).Consistent ref :=
  Config.machine_invariant (I := fun ref m => m.Consistent ref) Machine.consistent_default
    (fun _ ref _ h hMove => hMove.consistent (h ref)) handler p n ref

/-- The current state of a consistent machine is one of its own, and it is declared. -/
theorem Machine.Consistent.declares_current {w : World} {m : MachineRef} {s : StateRef}
    (h : (w.machine m).Consistent m) (hCurrent : w.current? m = some s) :
    s.machine = m ∧ w.declares s := by
  obtain ⟨i, hi, rfl⟩ := Option.map_eq_some_iff.mp hCurrent
  exact ⟨rfl, World.declares_iff.mpr (h.current_last i hi).1⟩

/-- The rules of a declared state lead to declared states of the same machine. -/
theorem Machine.WellFormed.declares_target {w : World} {s : StateRef}
    (h : (w.machine s.machine).WellFormed s.machine) (hs : w.declares s) {rule : Rule}
    (hRule : rule ∈ (w.state s).rules) :
    rule.target.machine = s.machine ∧ w.declares rule.target := by
  obtain ⟨hMachine, hIndex⟩ := h.targets s.index (World.declares_iff.mp hs) rule hRule
  exact ⟨hMachine, World.declares_iff.mpr (by rwa [hMachine])⟩

-- ---------------------------------------------------------------------------
-- Names are keys
-- ---------------------------------------------------------------------------

/-- Whether all names of a machine are keys. -/
def Machine.Named (m : Machine) : Prop := ∀ i < m.states.length, (m.nameOf i).hashable = true

/-- That the names are hashable depends on the declaration only. -/
theorem Machine.Named.of_declared {m m' : Machine} (h : m.Named)
    (hDeclared : m'.declared = m.declared) : m'.Named := by
  intro i hi
  rw [length_of_declared hDeclared] at hi
  rw [nameOf_of_declared hDeclared]
  exact h i hi

/-- The names of a machine that was read from a table are hashable: the others were refused. -/
theorem readTable_named {self : MachineRef} {table : Value} {m : Machine} {s s' : Streams}
    (h : (readTable self table).result s = (.ok m, s')) : m.Named := by
  unfold readTable at h
  obtain ⟨entries, _, _, h⟩ := Reading.bind_eq_ok.mp h
  obtain ⟨ds, _, hDeclarations, h⟩ := Reading.bind_eq_ok.mp h
  obtain ⟨rules, _, hRules, h⟩ := Reading.bind_eq_ok.mp h
  obtain rfl : Machine.withRules ds rules = m := Except.ok.inj (congrArg Prod.fst h)
  have hLength := (readAllRules_targets hRules).1
  intro i hi
  rw [Machine.length_withRules hLength] at hi
  rw [Machine.nameOf, Machine.state_withRules hLength i hi]
  exact ((readDeclarations_ok hDeclarations).2 _ (List.getElem_mem hi)).1

/-- The names of states are keys at every moment. -/
theorem Config.names_hashable {α : Type} (handler : Handler) (p : Program α) (n : Nat)
    (ref : MachineRef) :
    (((Config.start p).after .standard handler n).world.machine ref).Named := by
  refine Config.machine_invariant (I := fun _ m => m.Named) ?_ ?_ handler p n ref
  · exact fun _ i hi => absurd hi (Nat.not_lt_zero i)
  · intro w ref m h hMove
    cases hMove with
    | stay => exact h ref
    | enter index hIndex => exact (h ref).of_declared (Machine.declared_enter _ index)
    | put index slot v => exact (h ref).of_declared (Machine.declared_setSlot _ index slot v)
    | adjust a => exact (h ref).of_declared (by cases a <;> rfl)
    | reset _ => exact (h ref).of_declared (Machine.declared_reset _)
    | build m table s s' hRef hTable => exact readTable_named hTable

-- ---------------------------------------------------------------------------
-- What consistency comes to
-- ---------------------------------------------------------------------------

/-- How history, current state, positions and table of a machine belong together, spelled out. -/
structure Machine.Agreement (ref : MachineRef) (m : Machine) : Prop where
  /-- There is no current state exactly when the history is empty. -/
  current_none : m.current = none ↔ m.history = []
  /-- Otherwise the current state is the one whose name the last entry of the history has. -/
  current_last : ∀ i, m.current = some i →
    i < m.states.length ∧ m.stack.getLast? = some (m.nameOf i)
  /-- There is no previous state exactly when the history has fewer than two entries. -/
  previous_none : m.previous? = none ↔ m.history.length < 2
  /-- Otherwise the previous state is the one whose name the last entry but one has. -/
  previous_last : ∀ i, m.previous? = some i →
    i < m.states.length ∧ m.stack[m.stack.length - 2]? = some (m.nameOf i)
  /-- The positions that a state keeps increase. -/
  increasing : ∀ i < m.states.length, (m.state i).visits.Pairwise (· < ·)
  /-- They are those of the entries with the name of the state. -/
  positions : ∀ i < m.states.length, ∀ position, position ∈ (m.state i).visits ↔
    ∃ visit, m.history[position]? = some visit ∧ visit.name.eqv (m.nameOf i) = true
  /-- Each position in the history is kept by one state and no other. -/
  partition : ∀ position < m.history.length,
    ∃ i < m.states.length, ∀ j < m.states.length, position ∈ (m.state j).visits ↔ j = i
  /-- The visits of all states together are as many as the entries of the history. -/
  total : (m.states.map fun s => s.visits.length).sum = m.stack.length
  /-- No two states have equal names. -/
  distinct : ∀ i < m.states.length, ∀ j < m.states.length, i ≠ j →
    (m.nameOf i).eqv (m.nameOf j) = false
  /-- Rules lead to states of the same table. -/
  targets : ∀ i < m.states.length, ∀ rule ∈ (m.state i).rules,
    rule.target.machine = ref ∧ rule.target.index < m.states.length

namespace Machine

variable {ref : MachineRef} {m : Machine}

/-- The positions of a name are those of the visits that carry it. -/
theorem mem_positions {name : Value} {position : Nat} :
    position ∈ m.positions name ↔
      ∃ visit, m.history[position]? = some visit ∧ visit.name.eqv name = true := by
  rw [positions, List.mem_findIdxs_iff_exists_getElem_pos]
  simp only [stack, List.getElem_map, List.length_map]
  constructor
  · rintro ⟨hLt, hEqv⟩
    exact ⟨_, List.getElem?_eq_getElem hLt, hEqv⟩
  · rintro ⟨visit, hVisit, hEqv⟩
    obtain ⟨hLt, rfl⟩ := List.getElem?_eq_some_iff.mp hVisit
    exact ⟨hLt, hEqv⟩

/-- An entry of the history belongs to the state of its name alone. -/
theorem Consistent.owner (h : m.Consistent ref) {position : Nat}
    (hPosition : position < m.history.length) :
    ∃ i < m.states.length, ∀ j < m.states.length, position ∈ (m.state j).visits ↔ j = i := by
  -- the visit carries a declared name, and declared names are apart
  have hMem : m.history[position].name ∈ m.stack := List.mem_map_of_mem (List.getElem_mem _)
  obtain ⟨i, hi, hName⟩ := h.visited _ hMem
  refine ⟨i, hi, fun j hj => ?_⟩
  rw [h.visits j hj, mem_positions]
  simp only [List.getElem?_eq_getElem hPosition, Option.some.injEq, exists_eq_left', hName,
    h.eqv_iff hi hj]
  exact eq_comm

/-- A state is found under its name. -/
theorem WellFormed.find?_nameOf (h : m.WellFormed ref) (hNamed : m.Named) {i : Nat}
    (hi : i < m.states.length) : m.find? (m.nameOf i) = some i := by
  have hNameAt (j : Nat) (hj : j < m.states.length) : m.states[j].name = m.nameOf j := by
    rw [nameOf, state, List.getElem?_eq_getElem hj]
    rfl
  rw [find?, hNamed i hi, if_pos rfl, List.findIdx?_eq_some_iff_getElem]
  refine ⟨hi, by rw [hNameAt i hi]; exact Value.eqv_refl _, fun j hji => ?_⟩
  rw [hNameAt j (Nat.lt_trans hji hi), h.distinct j (Nat.lt_trans hji hi) i hi (Nat.ne_of_lt hji)]
  exact Bool.false_ne_true

/-- With fewer than two entries in the history there is no previous state. -/
theorem previous?_of_lt (h : m.history.length < 2) : m.previous? = none := by
  rw [← List.length_reverse] at h
  rw [previous?]
  rcases hHistory : m.history.reverse with _ | ⟨last, _ | ⟨visit, rest⟩⟩
  · rfl
  · rfl
  · rw [hHistory, List.length_cons, List.length_cons] at h
    omega

/-- With two entries or more there is one, and the last entry but one has its name. -/
theorem Consistent.previous?_of_le (h : m.Consistent ref) (hNamed : m.Named)
    (hTwo : 2 ≤ m.history.length) :
    ∃ i < m.states.length, m.previous? = some i ∧
      m.stack[m.stack.length - 2]? = some (m.nameOf i) := by
  have hReverse : m.history.reverse.reverse = m.history := List.reverse_reverse _
  rw [← List.length_reverse] at hTwo
  rw [previous?]
  -- the two last visits, the last one first
  rcases hHistory : m.history.reverse with _ | ⟨last, _ | ⟨visit, rest⟩⟩
  · simp [hHistory] at hTwo
  · simp [hHistory] at hTwo
  · rw [hHistory, List.reverse_cons, List.reverse_cons] at hReverse
    have hStack : m.stack = rest.reverse.map Visit.name ++ [visit.name, last.name] := by
      rw [stack, ← hReverse]
      simp
    obtain ⟨i, hi, hName⟩ := h.visited visit.name (by rw [hStack]; simp)
    refine ⟨i, hi, ?_, ?_⟩
    · show m.find? visit.name = some i
      rw [hName]
      exact h.find?_nameOf hNamed hi
    · rw [hStack, hName]
      simp

/-- The list of states is that of the states at the indices. -/
theorem map_states {β : Type} (m : Machine) (f : State → β) :
    m.states.map f = (List.range m.states.length).map fun i => f (m.state i) := by
  apply List.ext_getElem
  · simp
  · intro i hi _
    have hi' : i < m.states.length := by simpa using hi
    simp [state, List.getElem?_eq_getElem hi']

/-- Counting the entries of a history state by state counts each of them once. -/
theorem WellFormed.sum_countP (h : m.WellFormed ref) (names : List Value)
    (hNames : ∀ name ∈ names, ∃ i < m.states.length, name = m.nameOf i) :
    (∑ i ∈ Finset.range m.states.length, names.countP fun name => name.eqv (m.nameOf i)) =
      names.length := by
  induction names with
  | nil => simp
  | cons name rest ih =>
    obtain ⟨i, hi, rfl⟩ := hNames name List.mem_cons_self
    -- each name in the list is counted by one state and by no other
    have hOne : (∑ j ∈ Finset.range m.states.length,
        if (m.nameOf i).eqv (m.nameOf j) = true then 1 else 0) = 1 := by
      calc (∑ j ∈ Finset.range m.states.length,
            if (m.nameOf i).eqv (m.nameOf j) = true then 1 else 0)
          = ∑ j ∈ Finset.range m.states.length, if i = j then 1 else 0 :=
            Finset.sum_congr rfl fun j hj => by
              simp only [h.eqv_iff hi (Finset.mem_range.mp hj)]
        _ = 1 := by simp [hi]
    simp only [List.countP_cons, Finset.sum_add_distrib, List.length_cons]
    rw [ih fun name hName => hNames name (List.mem_cons_of_mem _ hName), hOne]

/-- The visit counts of the states add up to the length of the stack. -/
theorem Consistent.total (h : m.Consistent ref) :
    (m.states.map fun s => s.visits.length).sum = m.stack.length := by
  calc (m.states.map fun s => s.visits.length).sum
      = ∑ i ∈ Finset.range m.states.length, (m.state i).visits.length := by
        rw [map_states]
        rfl
    _ = ∑ i ∈ Finset.range m.states.length, m.stack.countP fun name => name.eqv (m.nameOf i) := by
        refine Finset.sum_congr rfl fun i hi => ?_
        rw [h.visits i (Finset.mem_range.mp hi), positions, List.length_findIdxs]
    _ = m.stack.length := h.toWellFormed.sum_countP _ h.visited

/-- What consistency comes to for the readings of a machine with hashable names. -/
theorem Consistent.agreement (h : m.Consistent ref) (hNamed : m.Named) : m.Agreement ref where
  current_none := h.current_none
  current_last := h.current_last
  previous_none := by
    refine ⟨fun hNone => Nat.lt_of_not_le fun hTwo => ?_, previous?_of_lt⟩
    obtain ⟨i, -, hSome, -⟩ := h.previous?_of_le hNamed hTwo
    rw [hNone] at hSome
    cases hSome
  previous_last i hPrevious := by
    rcases Nat.lt_or_ge m.history.length 2 with hFew | hTwo
    · rw [previous?_of_lt hFew] at hPrevious
      cases hPrevious
    · obtain ⟨j, hj, hSome, hName⟩ := h.previous?_of_le hNamed hTwo
      obtain rfl : j = i := Option.some.inj (hSome.symm.trans hPrevious)
      exact ⟨hj, hName⟩
  increasing i hi := by
    rw [h.visits i hi]
    exact List.pairwise_findIdxs
  positions i hi position := by rw [h.visits i hi, mem_positions]
  partition _ hPosition := h.owner hPosition
  total := h.total
  distinct := h.distinct
  targets := h.targets

end Machine

/-- **History, current state, positions and table agree at every moment**, whatever program is
executed and whatever functions do, also in the middle of an entry and before a failure. -/
theorem Config.machines_agree {α : Type} (handler : Handler) (p : Program α) (n : Nat)
    (ref : MachineRef) :
    (((Config.start p).after .standard handler n).world.machine ref).Agreement ref :=
  (Config.consistent handler p n ref).agreement (Config.names_hashable handler p n ref)

end RuleMachine
