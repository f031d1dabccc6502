import RuleMachine.Proofs.Consistency
import RuleMachine.Proofs.Refusals

/-!
# Names and states as references

A state of a machine is referred to by its name, or by any value that equals the name, or as the
state itself. Looking it up comes to the same, so operations cannot tell how it was referred to:
from the look-up on they are one execution.

Two kinds of values have another meaning. A state is never taken for a name, not even where it is
the name of a state of another machine; and where a slot of the latest visit is asked for, null
stands for the current state and not for one that null is the name of.

* `Machine.WellFormed.resolve?_of_eqv`: what equals a name refers to the state of that name.
* `Config.names_stand_for_states`: the operations that take references.
-/

namespace RuleMachine

-- ---------------------------------------------------------------------------
-- Programs that cannot be told apart
-- ---------------------------------------------------------------------------

/-- Whether two programs come to the same in a world, whatever functions do: at every moment they
have made the same of the world and of its log, and the same answer has been given or none yet. -/
def Run.SameIn {α : Type} (w : World) (x y : Run α) : Prop :=
  ∀ (handler : Handler) (n : Nat),
    let c := (Config.begin x w).after .standard handler n
    let d := (Config.begin y w).after .standard handler n
    c.world = d.world ∧ c.answer? = d.answer?

/-- Values that refer to the same state are looked up alike, and what follows is the same. -/
theorem Run.SameIn.resolve {α : Type} {w : World} {m : MachineRef} {v v' : Value} {i : Nat}
    (h : (w.machine m).resolve? m v = some i) (h' : (w.machine m).resolve? m v' = some i)
    (f : StateRef → Run α) : SameIn w (Run.resolve m v >>= f) (Run.resolve m v' >>= f) := by
  intro handler n
  cases n with
  | zero => exact ⟨rfl, rfl⟩
  | succ n =>
    -- the look-ups are one step each, and lead to the same moment
    have hNext {v : Value} (h : (w.machine m).resolve? m v = some i) :
        (Config.begin (Run.resolve m v >>= f) w).next .standard handler =
          some (Config.begin (f { machine := m, index := i }) w) := by
      have hAnswer : (Query.resolve m v).answer w = .ok (some { machine := m, index := i }) := by
        rw [Query.answer, h]
        rfl
      rw [Run.resolve, bind_assoc]
      exact Config.next_act (standard_look hAnswer) _
    simp only [Config.after_succ_of_next (hNext h), Config.after_succ_of_next (hNext h'),
      and_self]

-- ---------------------------------------------------------------------------
-- What equals a name
-- ---------------------------------------------------------------------------

namespace Machine

variable {ref : MachineRef} {m : Machine} {i : Nat} {v : Value}

/-- **What equals the name of a state refers to that state,** unless it is a state itself. -/
theorem WellFormed.resolve?_of_eqv (hm : m.WellFormed ref) (hNamed : m.Named)
    (hi : i < m.states.length) (hName : (m.nameOf i).eqv v = true) (hValue : ∀ s, v ≠ .state s) :
    m.resolve? ref v = some i := by
  have hNameAt (j : Nat) (hj : j < m.states.length) : m.states[j].name = m.nameOf j := by
    rw [nameOf, state, List.getElem?_eq_getElem hj]
    rfl
  rw [resolve?_of_ne hValue, find?, Value.hashable_of_eqv (hNamed i hi) hName, if_pos rfl,
    List.findIdx?_eq_some_iff_getElem]
  refine ⟨hi, by rwa [hNameAt i hi], fun j hji hFound => ?_⟩
  -- an earlier name that equals the value would equal the name
  have hj : j < m.states.length := Nat.lt_trans hji hi
  rw [hNameAt j hj, Value.eqv_comm (hNamed j hj)] at hFound
  have hSame := Value.eqv_trans (hNamed i hi) hName hFound
  rw [hm.eqv_iff hi hj] at hSame
  exact absurd hSame (Nat.ne_of_gt hji)

/-- A state of the machine itself resolves to its own index. -/
theorem resolve?_state (ref : MachineRef) (hi : i < m.states.length) :
    m.resolve? ref (.state { machine := ref, index := i }) = some i :=
  if_pos ⟨rfl, hi⟩

end Machine

-- ---------------------------------------------------------------------------
-- Operations with references
-- ---------------------------------------------------------------------------

/-- Any value but null is looked up to read a slot. -/
theorem Run.latestOf_of_ne {v : Value} (h : v ≠ .null) (m : MachineRef) (slot : Slot) :
    latestOf m slot v = resolve m v >>= fun s => look (.latest s slot) := by
  unfold latestOf
  split
  · exact absurd rfl h
  · rw [map_eq_pure_bind, bind_assoc]
    rfl

/-- Whether a value stands for a state of a machine: operations do the same when they are given the
one and when they are given the other. -/
structure World.StandsFor (w : World) (m : MachineRef) (v : Value) (s : StateRef) : Prop where
  states : Run.SameIn w (Run.resolveAll m [v]) (Run.resolveAll m [.state s])
  setState : Run.SameIn w (Run.setState m v) (Run.setState m (.state s))
  slots : ∀ slot, Run.SameIn w (Run.slotsOf m slot v) (Run.slotsOf m slot (.state s))
  /-- Null stands for the current state here. -/
  latest : v ≠ .null → ∀ slot,
    Run.SameIn w (Run.latestOf m slot v) (Run.latestOf m slot (.state s))
  /-- What a slot of the latest visit holds is the last of what it held in each visit. -/
  last : v ≠ .null → w.alive m = true → ∀ (handler : Handler) slot, ∃ held,
    (Config.begin (Run.slotsOf m slot v) w).Ends handler (.ok held) w ∧
      (Config.begin (Run.latestOf m slot v) w).Ends handler (.ok (held.getLast?.getD .null)) w

/-- What a slot of the latest visit holds, and what it held in each visit. -/
theorem World.latest_eq_last {w : World} {s : StateRef} (h : w.alive s.machine = true)
    (slot : Slot) : ∃ held, w.slots s slot = .ok held ∧
      w.latest s slot = .ok (held.getLast?.getD .null) := by
  refine ⟨(w.machine s.machine).slots s.index slot, by rw [slots, whileAlive, if_pos h], ?_⟩
  rw [latest, whileAlive, if_pos h, Machine.slots, List.getLast?_map, Machine.latest]
  -- a state that was never visited has no slot, and every other one has a last
  split
  · rename_i hEmpty
    rw [Machine.visitsTo, show ((w.machine s.machine).state s.index).visits = [] from
      List.isEmpty_iff.mp hEmpty]
    rfl
  · cases ((w.machine s.machine).visitsTo s.index).getLast? <;> rfl

/-- What resolves to a state stands for it in every operation that takes a reference. -/
theorem World.standsFor_of_resolve? {w : World} {m : MachineRef} {v : Value} {i : Nat}
    (h : (w.machine m).resolve? m v = some i) :
    w.StandsFor m v { machine := m, index := i } := by
  have hSelf := Machine.resolve?_state m (Machine.lt_of_resolve? h)
  -- every operation looks the reference up first and goes on with the state it finds
  have hLooked {α : Type} (f : StateRef → Run α) : Run.SameIn w (Run.resolve m v >>= f)
      (Run.resolve m (.state { machine := m, index := i }) >>= f) := .resolve h hSelf f
  refine ⟨hLooked _, hLooked _, fun slot => hLooked _, fun hNull slot => ?_,
    fun hNull hAlive handler slot => ?_⟩
  · have hState : Value.state { machine := m, index := i } ≠ .null := nofun
    rw [Run.latestOf_of_ne hNull, Run.latestOf_of_ne hState]
    exact hLooked _
  · obtain ⟨held, hSlots, hLatest⟩ :=
      w.latest_eq_last (s := { machine := m, index := i }) hAlive slot
    have hAnswer : (Query.resolve m v).answer w = .ok (some { machine := m, index := i }) := by
      rw [Query.answer, h]
      rfl
    have hEnds {β : Type} {q : StateRef → Query β} {b : β}
        (hq : (q { machine := m, index := i }).answer w = .ok b) :
        (Config.begin (Run.resolve m v >>= fun s => Run.look (q s)) w).Ends handler (.ok b) w := by
      have hLook : (Config.begin (Run.look (q { machine := m, index := i })) w).Ends handler
          (((q { machine := m, index := i }).answer w).mapError w.fault) w := .of_next rfl
      rw [hq] at hLook
      rw [Run.resolve, bind_assoc]
      exact (Config.leads_look hAnswer _).trans hLook
    refine ⟨held, hEnds hSlots, ?_⟩
    rw [Run.latestOf_of_ne hNull]
    exact hEnds hLatest

namespace Config

/-- **A name and the state of that name are interchangeable**, and so is every value that equals
the name, at every moment and whatever functions do. A state, though, is never taken for a name:
those of other machines are refused, also where one is the name of a state. -/
theorem names_stand_for_states {α : Type} (handler : Handler) (p : Program α) (n : Nat)
    (m : MachineRef) :
    let w := ((start p).after .standard handler n).world
    (∀ i < (w.machine m).states.length, ∀ v, ((w.machine m).nameOf i).eqv v = true →
      (∀ s, v ≠ .state s) → w.StandsFor m v { machine := m, index := i }) ∧
    ∀ (s : StateRef) (handler : Handler), s.machine ≠ m → w.Rejects handler m (.state s) := by
  intro w
  refine ⟨fun i hi v hName hValue => ?_, fun s handler hForeign => ?_⟩
  · refine World.standsFor_of_resolve? ?_
    -- that the names are apart and hashable holds at every moment
    have hConsistent := consistent handler p n m
    exact hConsistent.toWellFormed.resolve?_of_eqv (names_hashable handler p n m) hi hName hValue
  · exact .of_resolve? (w.resolve?_of_foreign hForeign)

/-- An elevator whose floors are numbered, but for one without a number. -/
def elevator : Value := .list [.tuple [.int 1, .null], .tuple [.null, .null]]

/-- Builds the elevator and calls it to the first floor. -/
def callElevator : Run StateRef := do
  let m ← Run.build elevator none
  Run.setState m (.int 1)

/-- On the elevator, one is as good as a truth value, and its state is as good as either. -/
theorem names_stand_for_states_elevator :
    let w := ((start (ExceptT.run callElevator)).after .standard penniless 12).world
    w.current? 0 = some { machine := 0, index := 0 } ∧
      w.StandsFor 0 (.bool true) { machine := 0, index := 0 } := by
  intro w
  have hFloors : 0 < (w.machine 0).states.length := by decide +kernel
  have hName : ((w.machine 0).nameOf 0).eqv (.bool true) = true := by decide +kernel
  obtain ⟨hNames, -⟩ := names_stand_for_states penniless (ExceptT.run callElevator) 12 0
  exact ⟨by decide +kernel, hNames 0 hFloors (.bool true) hName nofun⟩

/-- Builds the elevator, and a sign with one state, named by the state of the second floor. -/
def buildSign : Run MachineRef := do
  let m ← Run.build elevator none
  Run.build (.list [.tuple [.state { machine := m, index := 1 }, .null]]) none

/-- Notes on each floor how the elevator got there, first the one without a number. -/
def noteFloors : Run StateRef := do
  let m ← Run.build elevator none
  Run.keep (.bind "elevator" m)
  let _ ← Run.setState m .null
  Run.act (.assignCurrent m .result (.text "by stairs"))
  Run.setState m (.int 1)

/-- Not every name stands for its state. The sign does not know its state by the name that it was
declared with, and of the floor without a number it is not told by its name how the elevator got
there. -/
theorem not_every_name_stands_for_its_state :
    let w := ((start (ExceptT.run buildSign)).after .standard penniless 9).world
    let w' := ((start (ExceptT.run noteFloors)).after .standard penniless 16).world
    (((w.machine 1).nameOf 0).eqv (.state { machine := 0, index := 1 }) = true ∧
      ¬ Run.SameIn w (Run.setState 1 (.state { machine := 0, index := 1 }))
        (Run.setState 1 (.state { machine := 1, index := 0 }))) ∧
    ((w'.machine 0).nameOf 1).eqv .null = true ∧
      ¬ Run.SameIn w' (Run.latestOf 0 .result .null)
        (Run.latestOf 0 .result (.state { machine := 0, index := 1 })) := by
  intro w w'
  refine ⟨⟨by decide +kernel, fun hSame => ?_⟩, ⟨by decide +kernel, fun hSame => ?_⟩⟩
  · -- one succeeds and the other fails
    have hAnswers := congrArg (Option.map Except.isOk) (hSame penniless 20).2
    revert hAnswers
    decide +kernel
  · -- one answers with text and the other with null
    have hAnswers := congrArg (Option.map fun r => r.toOption.map Value.truthy)
      (hSame penniless 20).2
    revert hAnswers
    decide +kernel

end Config

end RuleMachine
