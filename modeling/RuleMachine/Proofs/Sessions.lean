import RuleMachine.Proofs.Consistency
import RuleMachine.Proofs.Deeds
import RuleMachine.Script.Session

/-!
# Sessions as executions

A session is performed one instruction after the other, each in a limited number of steps. As
long as no instruction needs more, this is the execution of one program, so whatever holds at
every moment of every execution holds throughout sessions.

* `Session.runFrom_ends`: the program of the session ends with the outcomes of its steps.
* `Instruction.plain`, `Session.stepsOf`: instructions and sessions on which theorems are tried.
-/

namespace RuleMachine

/-- A command for a machine, by its name or else the current one, that is given under no condition
and whose failure is not caught. -/
def Instruction.plain (machine : Option String) (command : Command) : Instruction :=
  { label := "", command, machine, guard := none, attempt := false }

namespace Session

variable {functions : Functions} {limit : Nat} {w : World}

/-- An instruction that was performed ended with its outcome in time. -/
theorem step_endsBy {i : Instruction} {s : Step} (h : step functions limit w i = some s) :
    (Config.begin (Run.perform .outermost i) w).EndsBy functions.handler limit s.outcome s.world ∧
      s.log = s.world.log.extract w.log.size := by
  obtain ⟨outcome, hAnswer, rfl⟩ := Option.map_eq_some_iff.mp h
  exact ⟨congrArg (Config.mk · _) (Config.program_of_answer? hAnswer), rfl⟩

/-- An instruction that ends within the limit is a step, with the events it logged. -/
theorem step_of_endsBy {i : Instruction} {outcome : Except Fault Reply} {v : World}
    (h : (Config.begin (Run.perform .outermost i) w).EndsBy functions.handler limit outcome v) :
    step functions limit w i =
      some { outcome, world := v, log := v.log.extract w.log.size } := by
  unfold step
  rw [h]
  rfl

theorem step_ends {i : Instruction} {s : Step} (h : step functions limit w i = some s) :
    (Config.begin (Run.perform Frame.outermost i) w).Ends functions.handler s.outcome s.world :=
  (step_endsBy h).1.ends

/-- The world in which a session ends that began in a given one. -/
def lastWorld (w : World) : List Step → World
  | [] => w
  | s :: rest => lastWorld s.world rest

/-- A session of several instructions is the first of them and the session of the others. -/
theorem runFrom_cons {i : Instruction} {rest : List Instruction} {steps : List Step}
    (h : runFrom functions limit w (i :: rest) = some steps) :
    ∃ first others, step functions limit w i = some first ∧
      runFrom functions limit first.world rest = some others ∧ steps = first :: others := by
  obtain ⟨first, hFirst, h⟩ := Option.bind_eq_some_iff.mp h
  obtain ⟨others, hOthers, h⟩ := Option.bind_eq_some_iff.mp h
  exact ⟨first, others, hFirst, hOthers, (Option.some.inj h).symm⟩

/-- A run takes the first instruction and then the others from the world it left. -/
theorem runFrom_of_cons {i : Instruction} {rest : List Instruction} {first : Step}
    {others : List Step} (hFirst : step functions limit w i = some first)
    (hOthers : runFrom functions limit first.world rest = some others) :
    runFrom functions limit w (i :: rest) = some (first :: others) := by
  simp only [runFrom, hFirst, Option.bind_eq_bind, Option.bind_some, hOthers]
  rfl

/-- **The program of a session ends with the outcomes of its steps.** -/
theorem runFrom_ends {instructions : List Instruction} {steps : List Step}
    (h : runFrom functions limit w instructions = some steps) :
    ({ program := program instructions, world := w } : Config _).Ends functions.handler
      (steps.map Step.outcome) (lastWorld w steps) := by
  induction instructions generalizing w steps with
  | nil =>
    obtain rfl := Option.some.inj h
    exact .refl _
  | cons i rest ih =>
    obtain ⟨first, others, hFirst, hOthers, rfl⟩ := runFrom_cons h
    exact ((step_ends hFirst).andThen _).trans ((ih hOthers).andThen _)

/-! ## Sessions to try theorems on -/

/-- What comes of instructions that are performed in a world, or nothing if a hundred steps are not
enough for one of them. -/
def stepsOf (functions : Functions) (w : World) (instructions : List Instruction) : List Step :=
  (runFrom functions 100 w instructions).getD []

/-- A run that goes through gives its steps. -/
theorem runFrom_stepsOf {instructions : List Instruction}
    (h : (runFrom functions 100 w instructions).isSome = true) :
    runFrom functions 100 w instructions = some (stepsOf functions w instructions) := by
  obtain ⟨steps, hSteps⟩ := Option.isSome_iff_exists.mp h
  rw [stepsOf, hSteps]
  rfl

end Session

end RuleMachine
