import RuleMachine.Machine.Basic

/-!
# Steppers

A stepper runs a machine one entered state at a time and can be kept between two steps. It
remembers how far it has come, not the machine's position: the machine may be driven by others
in the meantime.
-/

namespace RuleMachine

/-- How far a stepper has come: it has not begun, it is between two steps, it is taking one, or it
has come to its end, whether by itself, by a failure or by being closed. -/
inductive Stepper.Phase where
  | fresh
  | running
  | executing
  | finished
deriving DecidableEq, Repr

/-- A stepper for a machine, with the inputs that it passes to each switch. -/
structure Stepper where
  machine : MachineRef
  inputs : List Value
  phase : Stepper.Phase

end RuleMachine
