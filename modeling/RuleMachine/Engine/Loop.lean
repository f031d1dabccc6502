import RuleMachine.Engine.Switch

/-!
# Running until done

A machine runs by switching until its done value is true; if it has no current state it is
started first. `Run.run` does this at one go and a `Stepper` one entered state at a time; both
are made of `Run.firstStep` and `Run.nextStep`.

Nothing says that a machine is ever done, and then the run does not end.
-/

namespace RuleMachine

namespace Run

/-- The done value: a constant, or what a function says of the machine. -/
def done (m : MachineRef) : Run Value := do
  ask (← look (.done m)) [.machine m]

/-- Switches unless the machine is done. -/
def nextStep (m : MachineRef) (inputs : List Value) : Run (Option StateRef) := do
  let answer ← done m
  if answer.truthy then return none
  else return some (← switch m inputs)

/-- Starts a machine that has no current state, and switches one that has, unless it is done. An
empty machine, which cannot be started, goes on to switch. -/
def firstStep (m : MachineRef) (inputs : List Value) : Run (Option StateRef) := do
  let current ← look (.current m)
  let started ← if current.isSome then pure none else start m
  match started with
  | some s => return some s
  | none => nextStep m inputs

def finish (m : MachineRef) (inputs : List Value) : Run Unit :=
  repeatUntil do
    match ← nextStep m inputs with
    | none => return some ()
    | some _ => return none

/-- Runs a machine until it is done and gives the state in which it ends. -/
def run (m : MachineRef) (inputs : List Value) : Run (Option StateRef) := do
  match ← firstStep m inputs with
  | none => pure ()
  | some _ => finish m inputs
  look (.current m)

/-! ## One state at a time -/

/-- The next state that a stepper in a given phase enters, if it has not come to its end. -/
def stepFrom (m : MachineRef) (inputs : List Value) : Stepper.Phase → Run (Option StateRef)
  | .fresh => firstStep m inputs
  | .running => nextStep m inputs
  | .executing | .finished => return none

def phaseAfter : Except Fault (Option StateRef) → Stepper.Phase
  | .ok (some _) => .running
  | .ok none | .error _ => .finished

/-- Takes at most `limit` states from a stepper in a given phase. -/
def takeSteps (m : MachineRef) (inputs : List Value) :
    Stepper.Phase → (limit : Nat) → Run (List StateRef)
  | _, 0 => return []
  | phase, limit + 1 => do
    match ← stepFrom m inputs phase with
    | none => return []
    | some s =>
      let others ← takeSteps m inputs .running limit
      return s :: others

def stepper (id : String) : Run Stepper := do
  require (.unbound id) (← look (.stepper id))

/-- The stepper under an id. While it takes a step, nothing else can be asked of it. -/
def idleStepper (id : String) : Run Stepper := do
  let s ← stepper id
  if s.phase = .executing then fail (.raised .value "generator already executing")
  return s

/-- Ends the step that a stepper is taking. If the id was given to another stepper in the meantime,
that one stays as it is. -/
def endStep (id : String) (phase : Stepper.Phase) : Run Unit := do
  if (← look (.stepper id)).any (·.phase = .executing) then keep (.setPhase id phase)

/-- The next state that a kept stepper enters. A step that fails is the stepper's last. -/
def advance (id : String) : Run (Option StateRef) := do
  let s ← idleStepper id
  keep (.setPhase id .executing)
  let result ← outcome (stepFrom s.machine s.inputs s.phase)
  endStep id (phaseAfter result)
  ofOutcome result

def close (id : String) : Run Unit := do
  let _ ← idleStepper id
  keep (.setPhase id .finished)

end Run

end RuleMachine
