import RuleMachine.World

/-!
# Results and messages

A state reaches the slots of its visits through its machine. Without visits it has no slot:
reading gives null and assigning is an error. With visits it needs its machine, and a state
that outlived its machine has lost them.

A machine gives access to the slots of its current visit through its current state.
-/

namespace RuleMachine

namespace World

/-- What a state can say if its machine still lives. -/
def whileAlive {α : Type} (w : World) (s : StateRef) (a : α) : Except Cause α :=
  if w.alive s.machine then .ok a else .error (.outlivedMachine (w.state s).name)

def latest (w : World) (s : StateRef) (slot : Slot) : Except Cause Value :=
  if (w.state s).visits.isEmpty then .ok .null
  else w.whileAlive s ((w.machine s.machine).latest s.index slot)

/-- What a slot held in each visit to a state, oldest first. -/
def slots (w : World) (s : StateRef) (slot : Slot) : Except Cause (List Value) :=
  w.whileAlive s ((w.machine s.machine).slots s.index slot)

/-- Puts a value into a slot of the latest visit to a state. -/
def assign (w : World) (s : StateRef) (slot : Slot) (v : Value) : Except Cause World :=
  if (w.state s).visits.isEmpty then .error (.neverEntered (w.state s).name)
  else w.whileAlive s (w.modifyMachine s.machine fun m => m.setSlot s.index slot v)

def current? (w : World) (ref : MachineRef) : Option StateRef :=
  (w.machine ref).current.map fun index => { machine := ref, index }

def assignCurrent (w : World) (ref : MachineRef) (slot : Slot) (v : Value) : Except Cause World :=
  match w.current? ref with
  | some s => w.assign s slot v
  | none => .error .notStarted

theorem whileAlive_eq_ok {α : Type} {w : World} {s : StateRef} {a b : α}
    (h : w.whileAlive s a = .ok b) : a = b := by
  unfold whileAlive at h
  split at h
  · exact Except.ok.inj h
  · cases h

end World

end RuleMachine
