import RuleMachine.Engine.Lifecycle

/-!
# Results and messages of a machine

A machine gives access to the slots of any of its states, by default of the current one.
-/

namespace RuleMachine

namespace Run

/-- What a slot of the latest visit to a state holds, or of the current visit if null stands for the
state. -/
def latestOf (m : MachineRef) (slot : Slot) (v : Value) : Run Value := do
  let owner ←
    match v with
    | .null => look (.current m)
    | v => some <$> resolve m v
  match owner with
  | some s => look (.latest s slot)
  | none => return .null

def slotsOf (m : MachineRef) (slot : Slot) (v : Value) : Run (List Value) := do
  look (.slots (← resolve m v) slot)

end Run

end RuleMachine
