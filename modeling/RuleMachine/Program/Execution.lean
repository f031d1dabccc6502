import RuleMachine.Program.Basic

/-!
# Execution

A program is executed step by step, in a world and with functions given by a `Handler`. A call
is logged and then replaced by the program that the function is, so that functions and programs
call each other to any depth, and no step takes more than one primitive operation.

A `Config` is a moment of an execution: what is left of the program, and the world. Every
moment is reached after some number of steps, whether the execution ever ends or not, and
`Config.after` gives it.

What primitive operations do is a parameter of the execution, a `Semantics`. Sessions are
executed with `Semantics.standard`.

Main statements: `Config.after_add`, steps can be counted in two parts; `Config.after_andThen`,
what follows a program makes no difference to it; `Config.invariant`, what every primitive
operation keeps, every execution keeps; and `Config.simulation`, semantics whose primitive
operations cannot be told apart execute every program alike.
-/

namespace RuleMachine

/-- What calling a function with arguments does. -/
abbrev Handler := FunctionName → List Value → Run Value

/-- What primitive operations answer, and the worlds after them. -/
def Semantics := (β : Type) → Primitive β → World → Except Cause β × World

def Semantics.standard : Semantics := fun _ p w => p.effect w

/-- A moment of an execution: what is left to do, and the world. -/
structure Config (α : Type) where
  program : Program α
  world : World

namespace Config

variable {α : Type} (sem : Semantics) (handler : Handler)

/-- The moment at which a program begins, with nothing in the world. -/
def start (p : Program α) : Config α := { program := p, world := .empty }

/-- The moment at which a program that may fail begins in some world. -/
abbrev begin (x : Run α) (w : World) : Config (Except Fault α) :=
  { program := ExceptT.run x, world := w }

/-- The next moment, if the program has not ended. -/
def next (c : Config α) : Option (Config α) :=
  match c.program with
  | .ret _ => none
  | .perform p next =>
    let (r, w) := sem _ p c.world
    some { program := next (r.mapError c.world.fault), world := w }
  | .call f args next =>
    some
      { program := (ExceptT.run (handler f args)).bind next
        world := c.world.emit (.called f args) }
  | .loop body next => some { program := .unroll body next, world := c.world }

/-- The moment after some number of steps, or the last one if there are fewer. -/
def after (steps : Nat) (c : Config α) : Config α :=
  match steps with
  | 0 => c
  | steps + 1 =>
    match c.next sem handler with
    | some c' => after steps c'
    | none => c

def answer? (c : Config α) : Option α :=
  match c.program with
  | .ret a => some a
  | _ => none

theorem program_of_answer? {c : Config α} {a : α} (h : c.answer? = some a) :
    c.program = .ret a := by
  obtain ⟨p, w⟩ := c
  cases p with
  | ret b => exact congrArg Program.ret (Option.some.inj h)
  | perform _ _ | call _ _ _ | loop _ _ => cases h

/-! ## Counting steps -/

variable {sem handler}

theorem after_of_next_eq_none {c : Config α} (h : c.next sem handler = none) (n : Nat) :
    c.after sem handler n = c := by
  cases n with
  | zero => rfl
  | succ n => simp only [after, h]

theorem after_succ_of_next {c c' : Config α} (h : c.next sem handler = some c') (n : Nat) :
    c.after sem handler (n + 1) = c'.after sem handler n := by
  simp only [after, h]

/-- Steps can be counted in two parts. -/
theorem after_add (c : Config α) (m n : Nat) :
    c.after sem handler (m + n) = (c.after sem handler m).after sem handler n := by
  induction m generalizing c with
  | zero => rw [Nat.zero_add]; rfl
  | succ m ih =>
    rw [Nat.succ_add]
    cases h : c.next sem handler with
    | some c' => rw [after_succ_of_next h, after_succ_of_next h, ih]
    | none => rw [after_of_next_eq_none h, after_of_next_eq_none h, after_of_next_eq_none h]

/-- The last of several steps. -/
theorem after_succ (c : Config α) (n : Nat) :
    c.after sem handler (n + 1) =
      ((c.after sem handler n).next sem handler).getD (c.after sem handler n) := by
  rw [after_add]
  simp only [after]
  cases (c.after sem handler n).next sem handler <;> rfl

/-- A program that has ended stays as it is. -/
theorem after_ret (a : α) (w : World) (n : Nat) :
    ({ program := .ret a, world := w } : Config α).after sem handler n =
      { program := .ret a, world := w } :=
  after_of_next_eq_none rfl n

/-- From its end on, an execution stays as it is. -/
theorem after_of_ended {c : Config α} {last n : Nat}
    (hEnd : (c.after sem handler last).answer?.isSome = true) (h : last ≤ n) :
    c.after sem handler n = c.after sem handler last := by
  obtain ⟨a, ha⟩ := Option.isSome_iff_exists.mp hEnd
  have hRet : c.after sem handler last =
      { program := .ret a, world := (c.after sem handler last).world } :=
    congrArg (Config.mk · _) (program_of_answer? ha)
  rw [← Nat.add_sub_cancel' h, after_add, hRet, after_ret]

/-! ## One program after another -/

/-- The moment at which a program stands when another one is to follow it. -/
def andThen {β : Type} (c : Config α) (k : α → Program β) : Config β :=
  { program := c.program.bind k, world := c.world }

/-- Until a program ends, what follows it makes no difference to its steps. -/
theorem next_andThen {β : Type} {c c' : Config α} (k : α → Program β)
    (h : c.next sem handler = some c') :
    (c.andThen k).next sem handler = some (c'.andThen k) := by
  obtain ⟨p, w⟩ := c
  cases p with
  | ret a => simp [next] at h
  | perform p next =>
    obtain rfl := Option.some.inj h
    rfl
  | call f args next =>
    obtain rfl := Option.some.inj h
    simp [Config.next, andThen, Program.bind, Program.bind_assoc]
  | loop body next =>
    obtain rfl := Option.some.inj h
    simp only [Config.next, andThen, Program.bind, Program.unroll_bind]

/-- An execution of a program is the beginning of every execution of it followed by another one. -/
theorem after_andThen {β : Type} (c : Config α) (k : α → Program β) (n : Nat) :
    ∃ m ≤ n, (c.andThen k).after sem handler m = (c.after sem handler n).andThen k := by
  induction n generalizing c with
  | zero => exact ⟨0, Nat.le_refl 0, rfl⟩
  | succ n ih =>
    cases h : c.next sem handler with
    | some c' =>
      obtain ⟨m, hm, hAfter⟩ := ih c'
      refine ⟨m + 1, Nat.succ_le_succ hm, ?_⟩
      rw [after_succ_of_next (next_andThen k h), after_succ_of_next h, hAfter]
    | none => exact ⟨0, Nat.zero_le _, by rw [after_of_next_eq_none h]; rfl⟩

/-- A primitive operation that does not fail takes one step. -/
theorem next_act {β : Type} {p : Primitive β} {w w' : World} {b : β}
    (h : sem β p w = (.ok b, w')) (f : β → Run α) :
    (begin (Run.act p >>= f) w).next sem handler = some (begin (f b) w') := by
  rw [begin, Run.run_bind]
  simp only [next, Run.act, ExceptT.run, ExceptT.mk, Program.bind, h]
  rfl

/-! ## Invariants -/

/-- What a step does to the world: nothing, or it logs a call, or it performs a primitive
operation. -/
theorem world_of_next {c c' : Config α} (h : c.next sem handler = some c') :
    c'.world = c.world ∨
    (∃ f args, c'.world = c.world.emit (.called f args)) ∨
    ∃ (β : Type) (p : Primitive β) (next : Except Fault β → Program α),
      c.program = .perform p next ∧ c'.world = (sem β p c.world).2 := by
  obtain ⟨p, w⟩ := c
  cases p with
  | ret a => simp [next] at h
  | perform p next =>
    obtain rfl := Option.some.inj h
    exact .inr (.inr ⟨_, p, next, rfl, rfl⟩)
  | call f args next =>
    obtain rfl := Option.some.inj h
    exact .inr (.inl ⟨f, args, rfl⟩)
  | loop body next =>
    obtain rfl := Option.some.inj h
    exact .inl rfl

/-- What logging a call and every primitive operation keep, every execution keeps. -/
theorem invariant {I : World → Prop} (hCalled : ∀ w f args, I w → I (w.emit (.called f args)))
    (hPrimitive : ∀ (β : Type) (p : Primitive β) (w : World), I w → I (sem β p w).2)
    {c : Config α} (h : I c.world) (n : Nat) : I (c.after sem handler n).world := by
  induction n generalizing c with
  | zero => exact h
  | succ n ih =>
    cases hNext : c.next sem handler with
    | none => rwa [after_of_next_eq_none hNext]
    | some c' =>
      rw [after_succ_of_next hNext]
      apply ih
      rcases world_of_next hNext with hw | ⟨f, args, hw⟩ | ⟨β, p, _, _, hw⟩
      · rwa [hw]
      · rw [hw]
        exact hCalled _ _ _ h
      · rw [hw]
        exact hPrimitive _ _ _ h

/-! ## Two semantics -/

/-- If primitive operations answer alike in two semantics and keep worlds related, every program
goes on alike in the two, whatever functions do. -/
theorem simulation {sem' : Semantics} {R : World → World → Prop}
    (hFault : ∀ w w', R w w' → w'.fault = w.fault)
    (hCalled : ∀ w w' f args, R w w' → R (w.emit (.called f args)) (w'.emit (.called f args)))
    (hPrimitive : ∀ (β : Type) (p : Primitive β) (w w' : World), R w w' →
      (sem' β p w').1 = (sem β p w).1 ∧ R (sem β p w).2 (sem' β p w').2)
    {c c' : Config α} (hProgram : c'.program = c.program) (hWorld : R c.world c'.world) (n : Nat) :
    (c'.after sem' handler n).program = (c.after sem handler n).program ∧
      R (c.after sem handler n).world (c'.after sem' handler n).world := by
  induction n generalizing c c' with
  | zero => exact ⟨hProgram, hWorld⟩
  | succ n ih =>
    obtain ⟨p, w⟩ := c
    obtain ⟨p', w'⟩ := c'
    obtain rfl : p' = p := hProgram
    cases p' with
    | ret a => exact ⟨rfl, hWorld⟩
    | perform op next =>
      obtain ⟨hAnswer, hRelated⟩ := hPrimitive _ op w w' hWorld
      refine ih ?_ hRelated
      show next ((sem' _ op w').1.mapError w'.fault) = next ((sem _ op w).1.mapError w.fault)
      rw [hAnswer, hFault w w' hWorld]
    | call f args next => exact ih rfl (hCalled w w' f args hWorld)
    | loop body next => exact ih rfl hWorld

end Config

end RuleMachine
