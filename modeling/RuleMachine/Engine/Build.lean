import RuleMachine.Engine.Lifecycle

/-!
# Building machines

A machine is built from a table and then configured: its strictness and its done value are set
and, if that is asked for, it is started. A machine whose start fails was built all the same,
but nobody gets hold of it.
-/

namespace RuleMachine

namespace Run

def setStrict (m : MachineRef) (strict : Bool) : Run Unit := adjust m (.strict strict)

def setDone (m : MachineRef) (done : Value) : Run Unit := adjust m (.done (.ofValue done))

def configure (m : MachineRef) (options : Options) : Run Unit := do
  setStrict m options.strict
  setDone m options.done
  if options.start then
    let _ ← start m

/-- Builds a machine from a table and applies options to it. -/
def build (table : Value) (options : Option Options) : Run MachineRef := do
  let m ← act (.construct table)
  match options with
  | some o => keeping m (configure m o)
  | none => pure ()
  return m

end Run

end RuleMachine
