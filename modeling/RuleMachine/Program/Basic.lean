import RuleMachine.Program.Primitive

/-!
# Programs

A program is a tree. It ends with an answer, performs a primitive operation and goes on with
its outcome, calls a function and goes on with what comes of the call, or repeats a program
until that gives an answer. What a call does is left open: functions are no part of a program,
and a program says nothing about worlds. `Config` puts the three together.

`Run α` is a program that answers with a value of type `α` or fails. The engine and the
scripts are written with the few programs named here.

Main statements: the monad laws, as an instance of `LawfulMonad`.
-/

namespace RuleMachine

/-- Programs, by the type of their answers. -/
inductive Program : Type → Type 1 where
  | ret {α : Type} (a : α) : Program α
  | perform {α β : Type} (p : Primitive β) (next : Except Fault β → Program α) : Program α
  | call {α : Type} (f : FunctionName) (args : List Value)
      (next : Except Fault Value → Program α) : Program α
  | loop {α β : Type} (body : Program (Option β)) (next : β → Program α) : Program α

namespace Program

/-- Goes on with another program where a program ends. -/
def bind {α β : Type} (p : Program α) (k : α → Program β) : Program β :=
  match p with
  | .ret a => k a
  | .perform op next => .perform op fun r => (next r).bind k
  | .call f args next => .call f args fun r => (next r).bind k
  | .loop body next => .loop body fun b => (next b).bind k

instance : Monad Program where
  pure := ret
  bind := bind

theorem bind_ret {α : Type} (p : Program α) : p.bind .ret = p := by
  induction p with
  | ret a => rfl
  | perform op next ih => simp only [bind, ih]
  | call f args next ih => simp only [bind, ih]
  | loop body next _ ih => simp only [bind, ih]

theorem bind_assoc {α β γ : Type} (p : Program α) (k : α → Program β) (l : β → Program γ) :
    (p.bind k).bind l = p.bind fun a => (k a).bind l := by
  induction p with
  | ret a => rfl
  | perform op next ih => simp only [bind, ih]
  | call f args next ih => simp only [bind, ih]
  | loop body next _ ih => simp only [bind, ih]

instance : LawfulMonad Program :=
  LawfulMonad.mk' Program bind_ret (fun _ _ => rfl) bind_assoc

/-- Repeats the body of a loop once and asks whether to go on. -/
def unroll {α β : Type} (body : Program (Option β)) (next : β → Program α) : Program α :=
  body.bind fun
    | some b => next b
    | none => .loop body next

theorem unroll_bind {α β γ : Type} (body : Program (Option γ)) (next : γ → Program α)
    (k : α → Program β) : (unroll body next).bind k = unroll body fun c => (next c).bind k := by
  simp only [unroll, bind_assoc]
  refine congrArg body.bind (funext fun r => ?_)
  cases r <;> rfl

end Program

/-! ## Programs that may fail -/

/-- A program that answers with a value or fails. -/
abbrev Run (α : Type) := ExceptT Fault Program α

namespace Run

/-- What comes after a program is done unless it fails. -/
theorem run_bind {α β : Type} (x : Run α) (f : α → Run β) :
    ExceptT.run (x >>= f) = (ExceptT.run x).bind fun
      | .ok a => ExceptT.run (f a)
      | .error fault => .ret (.error fault) := by
  refine congrArg (Program.bind (ExceptT.run x)) (funext fun r => ?_)
  cases r <;> rfl

def act {α : Type} (p : Primitive α) : Run α := ExceptT.mk (.perform p .ret)

def call (f : FunctionName) (args : List Value) : Run Value := ExceptT.mk (.call f args .ret)

/-- Repeats a program until it gives an answer or fails. -/
def repeatUntil {α : Type} (body : Run (Option α)) : Run α :=
  ExceptT.mk (.loop ((ExceptT.run body).bind fun r => .ret (answer r)) .ret)
where
  /-- What ends the repetition: an answer or a failure. -/
  answer : Except Fault (Option α) → Option (Except Fault α)
    | .ok none => none
    | .ok (some a) => some (.ok a)
    | .error fault => some (.error fault)

def look {α : Type} (q : Query α) : Run α := act (.look q)

def keep (b : Bookkeeping) : Run Unit := act (.keep b)

def adjust (m : MachineRef) (a : Adjustment) : Run Unit := act (.adjust m a)

/-- Fails, with the message worded in the world of the moment. -/
def fail {α : Type} (cause : Cause) : Run α := act (.fail cause)

/-- A value that must be there, for the cause given if it is not. -/
def require {α : Type} (cause : Cause) (a : Option α) : Run α :=
  match a with
  | some a => pure a
  | none => fail cause

def reading {α : Type} (r : Reading Cause α) : Run α := act (.read r)

/-- The outcome of a program, which is never a failure itself. -/
def outcome {α : Type} (x : Run α) : Run (Except Fault α) := ExceptT.lift (ExceptT.run x)

def ofOutcome {α : Type} (r : Except Fault α) : Run α := ExceptT.mk (pure r)

/-- What comes after the outcome of a program. -/
theorem run_outcome_bind {α β : Type} (x : Run β) (f : Except Fault β → Run α) :
    ExceptT.run (outcome x >>= f) = (ExceptT.run x).bind fun r => ExceptT.run (f r) := by
  rw [run_bind]
  exact Program.bind_assoc _ _ _

/-- Keeps a machine alive during a program. -/
def keeping {α : Type} (m : MachineRef) (x : Run α) : Run α := do
  keep (.activate m)
  let r ← outcome x
  keep .release
  ofOutcome r

end Run

end RuleMachine
