import RuleMachine.Program.Execution
import RuleMachine.Script.Command

/-!
# Sessions

A session performs instructions one after the other in one world. Each is logged and answered
by itself, and a failure does not keep the next one from being performed (`Session.run`).

The functions that machines call are scripts too: a body of instructions and an expression for
what the function returns. So a function can drive the machine that called it, and functions
and engine call each other to any depth.

A session is one program, `Session.program`, so what holds at every moment of every program
holds throughout every session.
-/

namespace RuleMachine

/-- A function: its body, and what it returns. -/
structure Function where
  body : List Instruction
  result : Expr

def Function.empty : Function := { body := [], result := .constant .null }

abbrev Functions := FunctionName → Function

namespace Run

def guardHolds (f : Frame) (i : Instruction) : Run Bool := do
  match i.guard with
  | some condition => return (← condition.eval f).truthy
  | none => return true

/-- Performs the instructions of a body in order. Each outcome is logged. A failure ends the body,
unless its instruction was an attempt. -/
def performBody (f : Frame) : List Instruction → Run Unit
  | [] => pure ()
  | i :: rest => do
    if ← guardHolds f i then
      let result ← outcome (perform f i)
      keep (.performed i.label result)
      match result with
      | .ok _ => pure ()
      | .error fault => if i.attempt then pure () else ofOutcome (.error fault)
    performBody f rest

end Run

/-- What calling a function does: its body is performed, and what it returns is evaluated. -/
def Functions.handler (functions : Functions) : Handler := fun name args => do
  let f := Frame.inFunction args
  Run.performBody f (functions name).body
  (functions name).result.eval f

/-! ## Running a session -/

/-- What came of one instruction: its outcome, the world after it, and what was logged during it. -/
structure Step where
  outcome : Except Fault Reply
  world : World
  log : Array LogEntry

namespace Session

/-- The program that performs instructions one after the other, whether they fail or not, and
answers with their outcomes. -/
def program : List Instruction → Program (List (Except Fault Reply))
  | [] => .ret []
  | i :: rest =>
    (ExceptT.run (Run.perform Frame.outermost i)).bind fun outcome =>
      (program rest).bind fun others => .ret (outcome :: others)

/-- Performs one instruction outside of functions, in at most `limit` steps. -/
def step (functions : Functions) (limit : Nat) (w : World) (i : Instruction) : Option Step :=
  let c := (Config.begin (Run.perform Frame.outermost i) w).after .standard functions.handler limit
  c.answer?.map fun outcome =>
    { outcome, world := c.world, log := c.world.log.extract w.log.size }

def runFrom (functions : Functions) (limit : Nat) (w : World) :
    List Instruction → Option (List Step)
  | [] => some []
  | i :: rest => do
    let first ← step functions limit w i
    let others ← runFrom functions limit first.world rest
    return first :: others

/-- A bound on the steps of one instruction that is never met in practice. -/
def stepLimit : Nat := 1000000000000

/-- Performs instructions one after the other, beginning with nothing. -/
def run (functions : Functions) (instructions : List Instruction) : Option (List Step) :=
  runFrom functions stepLimit World.empty instructions

end Session

/-- Where the machine that an instruction names stands after a step, if one is bound to the name:
the name of its current state, and how many visits it made. -/
def Step.position (s : Step) (i : Instruction) : Option (Option Value × Nat) :=
  (s.world.bound.get? i.boundName).map fun m =>
    let machine := s.world.machine m
    (machine.currentName?, machine.history.length)

end RuleMachine
