import RuleMachine.Program.Basic

/-!
# Entering states

A state is entered in a fixed order: the exit actions of the current state, the actions of the
rule that was followed, the commitment itself, the enter actions and the body of the new state.
Actions are functions, and a function may do anything to any machine, this one included, so the
engine asks about a machine anew after each call and relies on nothing it learned before.

The commitment is one primitive operation and is never undone: a failure before it leaves the
history as it was, and a failure after it leaves the state entered.
-/

namespace RuleMachine

namespace Run

/-! ## Actions -/

/-- Calls functions in order with the same arguments, until one fails. What they return is
ignored. -/
def runActions (functions : List FunctionName) (args : List Value) : Run Unit :=
  match functions with
  | [] => pure ()
  | f :: rest => do
    let _ ← call f args
    runActions rest args

/-- Runs the actions in a slot of a state, each with the state. -/
def runSlot (s : StateRef) (slot : ActionSlot) : Run Unit := do
  runActions (← look (.actions s slot)) [.state s]

/-! ## Looking states up -/

/-- The name by which a failed look-up is reported: of a state its name, of anything else itself. -/
def reportedName (v : Value) : Run Value := do
  match v with
  | .state s => look (.name s)
  | v => return v

def resolve (m : MachineRef) (v : Value) : Run StateRef := do
  match ← look (.resolve m v) with
  | some s => return s
  | none => fail (.unknownState (← reportedName v) none)

/-- The states of a machine that several values refer to; the first that refers to none is
reported. -/
def resolveAll (m : MachineRef) (vs : List Value) : Run (List StateRef) :=
  match vs with
  | [] => return []
  | v :: rest => do
    let s ← resolve m v
    let others ← resolveAll m rest
    return s :: others

/-- The current state of a machine, which must have been started. -/
def currentState (m : MachineRef) : Run StateRef := do
  require .notStarted (← look (.current m))

/-! ## Entering -/

/-- Runs the exit actions of the state that is left, if there is one. -/
def leave (source : Option StateRef) : Run Unit :=
  match source with
  | some s => runSlot s .onExit
  | none => pure ()

/-- Enters a state, running the actions of a rule on the way. The source is the state that is
current when the entry begins. -/
def enter (target : StateRef) (actions : List FunctionName) : Run StateRef := do
  let source ← look (.current target.machine)
  leave source
  runActions actions [(source.map Value.state).getD .null, .state target]
  act (.commit target)
  runSlot target .onEnter
  runSlot target .body
  return target

/-- Enters the first declared state. A machine without states has none to enter. -/
def start (m : MachineRef) : Run (Option StateRef) := do
  match ← look (.states m) with
  | [] => return none
  | first :: _ => return some (← enter first [])

/-- Jumps to a state. No rule is evaluated and no actions of a rule are run. -/
def setState (m : MachineRef) (v : Value) : Run StateRef := do
  let target ← resolve m v
  enter target []

def reset (m : MachineRef) : Run Unit := act (.reset m)

end Run

end RuleMachine
