import RuleMachine.Fault

/-!
# Options

Options are given when a machine is built and applied after it. What is left out is false.
-/

namespace RuleMachine

/-- Options applied after a machine is built: whether to start it at once, its initial done value,
and whether it is strict. -/
structure Options where
  start : Bool
  done : Value
  strict : Bool

namespace Options

/-- The truth value of an option. No other value will do, however true it is. -/
def readSwitch (option : Switch) (v : Value) : Except Cause Bool :=
  match v with
  | .bool b => .ok b
  | v => .error (.notBool option v.typeName)

/-- Options from values, of which those left out are false. -/
def ofValues (start done strict : Option Value) : Except Cause Options := do
  let start ← readSwitch .start (start.getD (.bool false))
  let strict ← readSwitch .strict (strict.getD (.bool false))
  return { start, done := done.getD (.bool false), strict }

def text (refs : RefText) (o : Options) : String :=
  "MachineConfig(start=" ++ (Value.bool o.start).literal refs ++
    ", done=" ++ o.done.literal refs ++
    ", strict=" ++ (Value.bool o.strict).literal refs ++ ")"

/-- Options as a value: each option, and the text of them all. -/
def toValue (o : Options) (text : String) : Value :=
  .record [("start", .bool o.start), ("done", o.done), ("strict", .bool o.strict),
    ("repr", .text text)]

end Options

end RuleMachine
