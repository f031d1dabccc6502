import RuleMachine.Engine.Build
import RuleMachine.Proofs.Consistency

/-!
# Histories grow and keep what is past

Nothing but a reset takes anything out of a history, and of what is in it only the slots of the
latest visit to each state can still change. So of two moments with no reset between them, the
stack of the earlier begins the stack of the later, and the entries that had been followed by
another one to the same state are the same at both.

Main statement: `Config.history_grows`, for any two moments of any execution.
-/

namespace RuleMachine

/-- Whether an entry of the history is the latest one to its state. -/
def Machine.IsLatest (m : Machine) (position : Nat) : Prop :=
  ∀ name, m.stack[position]? = some name →
    ∀ after > position, ∀ other, m.stack[after]? = some other → other.eqv name = false

/-- What a machine has done by some moment is still there at another. -/
structure Machine.Grows (m m' : Machine) : Prop where
  /-- The states entered are still those, and there may be more. -/
  stack : m.stack <+: m'.stack
  /-- An entry followed by another one to the same state is as it was. -/
  frozen : ∀ position, ¬ m.IsLatest position → m'.history[position]? = m.history[position]?

namespace Machine

variable {ref : MachineRef} {m m' m'' : Machine}

-- ---------------------------------------------------------------------------
-- Growing
-- ---------------------------------------------------------------------------

/-- An entry that has been followed by another one to the same state stays so. -/
theorem Grows.not_isLatest (h : m.Grows m') {position : Nat} (hLatest : ¬ m.IsLatest position) :
    ¬ m'.IsLatest position := by
  intro hLatest'
  apply hLatest
  intro name hName after hAfter other hOther
  obtain ⟨more, hMore⟩ := h.stack
  -- what stands in the stack stands there later too, so a later visit stays a later one
  have hKeeps {i : Nat} {v : Value} (hi : m.stack[i]? = some v) : m'.stack[i]? = some v := by
    obtain ⟨hLt, -⟩ := List.getElem?_eq_some_iff.mp hi
    rw [← hMore, List.getElem?_append_left hLt, hi]
  exact hLatest' name (hKeeps hName) after hAfter other (hKeeps hOther)

theorem Grows.of_same (h : m'.history = m.history) : m.Grows m' where
  stack := by rw [Machine.stack, Machine.stack, h]
  frozen _ _ := by rw [h]

theorem Grows.refl (m : Machine) : m.Grows m := .of_same rfl

theorem Grows.trans (h : m.Grows m') (h' : m'.Grows m'') : m.Grows m'' where
  stack := h.stack.trans h'.stack
  frozen position hLatest := by
    rw [h'.frozen position (h.not_isLatest hLatest), h.frozen position hLatest]

-- ---------------------------------------------------------------------------
-- What each change of a machine leaves as it was
-- ---------------------------------------------------------------------------

/-- From a machine without visits anything grows. -/
theorem grows_of_empty (h : m.history = []) (m' : Machine) : m.Grows m' where
  stack := by simp [Machine.stack, h]
  frozen position hLatest := by
    refine absurd ?_ hLatest
    intro name hName
    simp [Machine.stack, h] at hName

/-- An entry pushes one visit and leaves those before it as they are. -/
theorem grows_enter {index : Nat} (h : index < m.states.length) : m.Grows (m.enter index) where
  stack := by
    rw [stack_enter h]
    exact List.prefix_append _ _
  frozen position hLatest := by
    -- a position beyond the history carries no name, so it would count as a latest one
    have hPosition : position < m.history.length := by
      by_contra hBeyond
      refine hLatest fun name hName => ?_
      obtain ⟨hLt, -⟩ := List.getElem?_eq_some_iff.mp hName
      simp only [Machine.stack, List.length_map] at hLt
      exact absurd hLt hBeyond
    rw [enter_of_lt h]
    exact List.getElem?_append_left hPosition

/-- No position of a state comes after the last one. -/
theorem le_of_getLast?_positions {name : Value} {last position : Nat}
    (hLast : (m.positions name).getLast? = some last) (h : position ∈ m.positions name) :
    position ≤ last := by
  obtain ⟨earlier, hEarlier⟩ := List.getLast?_eq_some_iff.mp hLast
  have hIncreasing : (m.positions name).Pairwise (· < ·) := List.pairwise_findIdxs
  rw [hEarlier, List.pairwise_append] at hIncreasing
  rw [hEarlier, List.mem_append, List.mem_singleton] at h
  -- every position but the last stands before it
  rcases h with h | rfl
  · exact Nat.le_of_lt (hIncreasing.2.2 _ h _ List.mem_cons_self)
  · exact Nat.le_refl _

/-- The last of the positions of a state is that of the latest visit to it. -/
theorem Consistent.isLatest (h : m.Consistent ref) {index last : Nat}
    (hLast : (m.state index).visits.getLast? = some last) : m.IsLatest last := by
  have hIndex : index < m.states.length := by
    by_contra hBeyond
    rw [state, List.getElem?_eq_none (Nat.not_lt.mp hBeyond)] at hLast
    cases hLast
  rw [h.visits index hIndex] at hLast
  intro name hName after hAfter other hOther
  rw [Bool.eq_false_iff]
  intro hEqv
  -- the entry has the name of the state, and so does the later one
  have hNameOf : name = m.nameOf index := by
    obtain ⟨i, hi, rfl⟩ := h.visited name (List.mem_of_getElem? hName)
    obtain ⟨visit, hVisit, hOwn⟩ := mem_positions.mp (List.mem_of_getLast? hLast)
    have hSame : visit.name = m.nameOf i := by
      rw [stack, List.getElem?_map, hVisit] at hName
      exact Option.some.inj hName
    rw [hSame, h.eqv_iff hi hIndex] at hOwn
    rw [hOwn]
  have hMem : after ∈ m.positions (m.nameOf index) := by
    obtain ⟨hLt, hGet⟩ := List.getElem?_eq_some_iff.mp hOther
    exact List.mem_findIdxs_iff_exists_getElem_pos.mpr ⟨hLt, by rw [hGet, ← hNameOf, hEqv]⟩
  exact absurd (le_of_getLast?_positions hLast hMem) (Nat.not_le.mpr hAfter)

/-- An assignment writes into the latest visit of its state, and there only. -/
theorem Consistent.grows_setSlot (h : m.Consistent ref) (index : Nat) (slot : Slot) (v : Value) :
    m.Grows (m.setSlot index slot v) where
  stack := by rw [stack_setSlot]
  frozen position hLatest := by
    unfold Machine.setSlot
    split
    · rename_i last hLast
      -- the slot that is written is that of a latest visit
      have hNe : last ≠ position := by
        rintro rfl
        exact hLatest (h.isLatest hLast)
      simp [hNe]
    · rfl

theorem grows_adjust (a : Adjustment) (m : Machine) : m.Grows (a.apply m) := by
  cases a <;> exact .of_same rfl

end Machine

/-- **A move that is no reset lets a machine grow.** -/
theorem World.Move.grows {w : World} {ref : MachineRef} {m : Machine} (hMove : w.Move ref False m)
    (h : (w.machine ref).Consistent ref) : (w.machine ref).Grows m := by
  cases hMove with
  | stay => exact .refl _
  | enter index hIndex => exact Machine.grows_enter hIndex
  | put index slot v => exact h.grows_setSlot index slot v
  | adjust a => exact Machine.grows_adjust a _
  | reset h => exact h.elim
  -- there was no machine under this number, so its history was empty
  | build m table s s' hRef hTable =>
    refine Machine.grows_of_empty ?_ m
    rw [World.machine_of_le (Nat.le_of_eq hRef.symm)]
    rfl

-- ---------------------------------------------------------------------------
-- Any two moments
-- ---------------------------------------------------------------------------

namespace Config

variable {α : Type} {handler : Handler}

/-- Whether the next step is to reset a machine. -/
def resets (ref : MachineRef) (c : Config α) : Bool :=
  match c.program with
  | .perform p _ => p.resets ref
  | _ => false

/-- A step that does not reset a machine lets it grow. -/
theorem grows_of_next {ref : MachineRef} {c c' : Config α}
    (h : (c.world.machine ref).Consistent ref) (hReset : c.resets ref = false)
    (hNext : c.next .standard handler = some c') :
    (c.world.machine ref).Grows (c'.world.machine ref) := by
  rcases world_of_next hNext with hWorld | ⟨f, args, hWorld⟩ | ⟨β, p, next, hProgram, hWorld⟩
  · rw [hWorld]
    exact .refl _
  · rw [hWorld]
    exact .refl _
  · rw [hWorld]
    refine ((p.move c.world ref).mono fun hResets => ?_).grows h
    have hNot : p.resets ref = false := by simpa only [resets, hProgram] using hReset
    rw [hNot] at hResets
    cases hResets

/-- Between two moments without a reset a machine grows. -/
theorem grows_after (p : Program α) (ref : MachineRef) {i j : Nat} (hij : i ≤ j)
    (hReset : ∀ k < j, i ≤ k → ((start p).after .standard handler k).resets ref = false) :
    (((start p).after .standard handler i).world.machine ref).Grows
      (((start p).after .standard handler j).world.machine ref) := by
  induction j, hij using Nat.le_induction with
  | base => exact .refl _
  | succ j hij ih =>
    refine (ih fun k hkj => hReset k (Nat.lt_succ_of_lt hkj)).trans ?_
    rw [after_succ]
    cases hNext : ((start p).after .standard handler j).next .standard handler with
    | none => exact .refl _
    | some c' =>
      exact grows_of_next (consistent handler p j ref) (hReset j (Nat.lt_succ_self j) hij) hNext

/-- **Between two moments without a reset, histories only grow and old visits are frozen.** The
stack of the earlier moment begins the stack of the later one; an entry whose slots differ was the
latest one to its state at the earlier moment; and an entry that was not is the same at both. -/
theorem history_grows (p : Program α) (ref : MachineRef) {i j : Nat} (hij : i ≤ j)
    (hReset : ∀ k < j, i ≤ k → ((start p).after .standard handler k).resets ref = false) :
    let earlier := ((start p).after .standard handler i).world.machine ref
    let later := ((start p).after .standard handler j).world.machine ref
    earlier.stack <+: later.stack ∧
      (∀ position visit visit', earlier.history[position]? = some visit →
        later.history[position]? = some visit' →
        visit'.result ≠ visit.result ∨ visit'.message ≠ visit.message →
        earlier.IsLatest position) ∧
      ∀ position, ¬ earlier.IsLatest position →
        later.history[position]? = earlier.history[position]? := by
  intro earlier later
  have hGrows : earlier.Grows later := grows_after p ref hij hReset
  refine ⟨hGrows.stack, ?_, hGrows.frozen⟩
  intro position visit visit' hVisit hVisit' hDiffer
  by_contra hLatest
  have hSame : visit' = visit := by
    rw [hGrows.frozen position hLatest, hVisit] at hVisit'
    exact (Option.some.inj hVisit').symm
  rcases hDiffer with hDiffer | hDiffer
  · exact hDiffer (by rw [hSame])
  · exact hDiffer (by rw [hSame])

/-- Two states, the first of which has an exit action. -/
def twoStates : Value :=
  .map [(.text "out", .map [(.text "on_exit", .function "farewell")]), (.text "in", .null)]

/-- The exit action leaves a message in the visit that is current. -/
def farewell : Handler := fun _ _ => do
  Run.act (.assignCurrent 0 .message (.text "bye"))
  return .null

/-- Enters the first state, then the second, then the first again. -/
def thereAndBack : Run StateRef := do
  let m ← Run.build twoStates none
  Run.keep (.bind "m" m)
  let _ ← Run.setState m (.text "out")
  let _ ← Run.setState m (.text "in")
  Run.setState m (.text "out")

/-- The exit action writes to the first entry while that is the latest to its state, and the stack
only grows. -/
theorem history_grows_thereAndBack :
    let c := fun k => (start (ExceptT.run thereAndBack)).after .standard farewell k
    8 ≤ 20 ∧ (∀ k < 20, 8 ≤ k → (c k).resets 0 = false) ∧
      ((c 8).world.machine 0).stack <+: ((c 20).world.machine 0).stack ∧
      ((c 20).world.machine 0).stack = [.text "out", .text "in", .text "out"] := by
  intro c
  have hReset : ∀ k < 20, 8 ≤ k → (c k).resets 0 = false := by decide
  exact ⟨by decide, hReset, (history_grows (ExceptT.run thereAndBack) 0 (by decide) hReset).1, rfl⟩

end Config

end RuleMachine
