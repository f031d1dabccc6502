import RuleMachine.Proofs.Correspondence.Commands

/-!
# Programs that leave the mode of a machine alone

Only one thing in the engine depends on the mode of a machine: a try to switch reads it to choose
between two searches. A program that uses the mode in no other way, neither reading nor assigning
it, is unaware of it.

The engine is unaware of the mode of every machine, except where it sets the mode of one that it has
just built. Scripts are unaware of it if none of their commands is about the mode.

* `Program.Unaware`: the programs, with one rule for choices.
* `Run.trySwitch_unaware`: a try to switch uses the mode for its choice only.
* `Functions.handler_unaware`, `Session.program_unaware`: scripts without such commands.
-/

namespace RuleMachine

-- ---------------------------------------------------------------------------
-- Programs
-- ---------------------------------------------------------------------------

/-- Whether a primitive operation neither reads nor assigns the mode of a machine. -/
def Primitive.ignoresMode {β : Type} (p : Primitive β) (m : MachineRef) : Bool :=
  match p with
  | .look (.strict ref) => ref != m
  | .adjust ref (.strict _) => ref != m
  | _ => true

/-- Whether a program that begins after a machine was built uses the mode of the machine for choices
only. -/
inductive Program.Unaware (m : MachineRef) : {α : Type} → Program α → Prop
  | ret {α : Type} (a : α) : Unaware m (.ret a)
  | perform {α β : Type} {p : Primitive β} {next : Except Fault β → Program α}
      (hMode : p.ignoresMode m = true)
      (hNext : ∀ w : World, m < w.machines.length →
        Unaware m (next ((p.effect w).1.mapError w.fault))) :
      Unaware m (.perform p next)
  | call {α : Type} (f : FunctionName) (args : List Value) {next : Except Fault Value → Program α}
      (hNext : ∀ r, Unaware m (next r)) : Unaware m (.call f args next)
  | loop {α β : Type} {body : Program (Option β)} {next : β → Program α}
      (hBody : Unaware m body) (hNext : ∀ b, Unaware m (next b)) : Unaware m (.loop body next)
  | select {α : Type} (s : StateRef) (rules : List Rule) (inputs : List Value)
      {next : Except Fault (Option Rule) → Program α} (hNext : ∀ r, Unaware m (next r)) :
      Unaware m ((ExceptT.run (Run.select m s rules inputs)).bind next)

/-- The same for a program that may fail. -/
def Run.Unaware (m : MachineRef) {α : Type} (x : Run α) : Prop := (ExceptT.run x).Unaware m

/-- Whether all functions are unaware of the mode of a machine. -/
def Handler.Unaware (m : MachineRef) (handler : Handler) : Prop :=
  ∀ f args, (handler f args).Unaware m

namespace Program.Unaware

variable {m : MachineRef} {α β : Type}

/-- One program after the other asks no more than both do. -/
theorem bind {p : Program α} {k : α → Program β} (hp : p.Unaware m) (hk : ∀ a, (k a).Unaware m) :
    (p.bind k).Unaware m := by
  induction hp with
  | ret a => exact hk a
  | perform hMode _ ih => exact .perform hMode fun w hw => ih w hw hk
  | call f args _ ih => exact .call f args fun r => ih r hk
  | loop hBody _ _ ih => exact .loop hBody fun b => ih b hk
  | select s rules inputs _ ih =>
    rw [Program.bind_assoc]
    exact .select s rules inputs fun r => ih r hk

/-- A loop asks what its rounds ask. -/
theorem unroll {body : Program (Option β)} {next : β → Program α} (hBody : body.Unaware m)
    (hNext : ∀ b, (next b).Unaware m) : (Program.unroll body next).Unaware m := by
  refine hBody.bind fun r => ?_
  cases r with
  | some b => exact hNext b
  | none => exact .loop hBody hNext

end Program.Unaware

-- ---------------------------------------------------------------------------
-- Rules for programs that may fail
-- ---------------------------------------------------------------------------

namespace Run

variable {m : MachineRef} {α β : Type}

/-- If the first program fails, the second one is not executed. -/
theorem Unaware.bind {x : Run α} {f : α → Run β} (hx : x.Unaware m) (hf : ∀ a, (f a).Unaware m) :
    (x >>= f).Unaware m := by
  unfold Run.Unaware
  rw [run_bind]
  refine Program.Unaware.bind hx fun r => ?_
  cases r with
  | ok a => exact hf a
  | error fault => exact .ret _

theorem unaware_ofOutcome (r : Except Fault α) : (ofOutcome r).Unaware m := .ret r

/-- A single primitive operation that does not depend on the mode. -/
theorem unaware_act {p : Primitive α} (h : p.ignoresMode m = true) : (act p).Unaware m :=
  .perform h fun _ _ => .ret _

theorem unaware_fail (cause : Cause) : (fail cause : Run α).Unaware m := unaware_act rfl

theorem unaware_keep (b : Bookkeeping) : (keep b).Unaware m := unaware_act rfl

/-- Tables and rules are read without regard to the mode. -/
theorem unaware_reading (r : Reading Cause α) : (reading r).Unaware m := unaware_act rfl

theorem unaware_call (f : FunctionName) (args : List Value) : (call f args).Unaware m :=
  .call f args fun _ => .ret _

theorem Unaware.outcome {x : Run α} (hx : x.Unaware m) : (outcome x).Unaware m :=
  Program.Unaware.bind hx fun _ => .ret _

/-- Marking a machine as in use and as no longer in use does not depend on the mode. -/
theorem Unaware.keeping {x : Run α} (hx : x.Unaware m) (ref : MachineRef) :
    (keeping ref x).Unaware m := by
  refine (unaware_keep _).bind fun _ => hx.outcome.bind fun r => ?_
  exact (unaware_keep _).bind fun _ => unaware_ofOutcome r

theorem Unaware.repeatUntil {body : Run (Option α)} (hBody : body.Unaware m) :
    (repeatUntil body).Unaware m :=
  .loop (Program.Unaware.bind hBody fun _ => .ret _) fun _ => .ret _

theorem unaware_select (s : StateRef) (rules : List Rule) (inputs : List Value) :
    (select m s rules inputs).Unaware m := by
  unfold Run.Unaware
  rw [← Program.bind_ret (ExceptT.run _)]
  exact .select s rules inputs fun _ => .ret _

end Run

-- ---------------------------------------------------------------------------
-- Everything that is put together is unaware
-- ---------------------------------------------------------------------------

/-- A function is called without regard to the mode. What it does itself is no part of the call. -/
def Act.ignoresMode (m : MachineRef) : Act → Bool
  | .perform p => p.ignoresMode m
  | .call _ _ => true

/-- What is not about the mode of any machine does not depend on the mode of a certain one. -/
theorem Act.ignoresMode_of_not_about {a : Act} (h : a.isAboutMode = false) (m : MachineRef) :
    a.ignoresMode m = true := by
  -- only two operations look at a mode: the question for it and the adjustment of it
  cases a with
  | call f args => rfl
  | perform p =>
    cases p with
    | look q =>
      cases q with
      | strict ref => cases h
      | _ => rfl
    | adjust ref a =>
      cases a with
      | strict b => cases h
      | _ => rfl
    | _ => rfl

/-- Only a machine that was there before can be the one of whose mode a program is unaware, so the
mode of a machine that it builds may be set. -/
theorem Run.unaware_construct {m : MachineRef} {α : Type} (table : Value) {k : MachineRef → Run α}
    (hk : ∀ ref, (ref != m) = true → (k ref).Unaware m) :
    (act (.construct table) >>= k).Unaware m := by
  unfold Run.Unaware
  rw [run_bind]
  refine .perform rfl fun w hBuilt => ?_
  show Program.Unaware m (Program.bind (.ret ((w.construct table).1.mapError w.fault)) _)
  rcases hRead : (readTable w.machines.length table).result w.streams with ⟨cause | built, t⟩
  · simp only [World.construct, hRead]
    exact .ret _
  · simp only [World.construct, hRead]
    exact hk _ (bne_iff_ne.mpr (Nat.ne_of_gt hBuilt))

/-- Being unaware of the mode of a machine as a correspondence. Nothing is renamed and everything is
known. -/
def Correspondence.unaware (m : MachineRef) : Correspondence where
  ρ := .identity
  known _ := True
  allows a := a.ignoresMode m = true
  Holds _ x _ := x.Unaware m

namespace Correspondence

/-- Whatever is put together from what does not depend on the mode does not depend on it either. The
choice of a rule does, and it is the only exception. -/
theorem unaware_lawful (m : MachineRef) : (unaware m).Lawful where
  home _ := .rfl
  looks q h := Act.ignoresMode_of_not_about (a := .perform (.look q)) h m
  ofOutcome _ := Run.unaware_ofOutcome _
  bind hx hk := hx.bind fun b => hk b (Contents.within_any _ (fun _ => trivial) b)
  act _ _ h _ := Run.unaware_act h
  fail _ _ := Run.unaware_fail _
  call _ _ := Run.unaware_call _ _
  allowed _ h := Act.ignoresMode_of_not_about h m
  reading _ _ _ := Run.unaware_reading _
  outcome hx := hx.outcome
  keeping _ hx := hx.keeping _
  repeatUntil hx := hx.repeatUntil
  construct _ hk := Run.unaware_construct _ fun ref hRef => hk ref trivial fun _ => hRef
  -- the mode of the machine itself is looked at where a rule is chosen
  select h := by
    obtain rfl := not_ne_iff.mp fun hRef => h (bne_iff_ne.mpr hRef)
    exact Run.unaware_select _ _ _

theorem unaware_fixed (m : MachineRef) (v : Value) : v.Fixed (unaware m).ρ (unaware m).known :=
  ⟨v.rename_identity, v.within_any fun _ => trivial⟩

end Correspondence

open Correspondence (unaware_lawful unaware_fixed)

namespace Run

variable {m : MachineRef}

theorem ask_unaware (predicate : Predicate) (args : List Value) :
    (ask predicate args).Unaware m :=
  (unaware_lawful m).ask' (Contents.predicate.within_any (fun _ => trivial) predicate)
    fun v _ => v.within_any fun _ => trivial

theorem choose_unaware (s : StateRef) (rules : List Rule) (strict : Bool) (inputs : List Value) :
    (choose s rules strict inputs).Unaware m :=
  (unaware_lawful m).choose' trivial
    (fun rule _ => Contents.rule.within_any (fun _ => trivial) rule)
    (fun v _ => v.within_any fun _ => trivial) strict

/-- **Instructions that are not about the mode are unaware of it.** -/
theorem perform_unaware (f : Frame) {i : Instruction} (h : i.isAboutMode = false) :
    (perform f i).Unaware m :=
  (unaware_lawful m).perform (fun v _ => v.within_any fun _ => trivial) i
    (fun v _ => unaware_fixed m v) (.inr h)

end Run

/-- Functions whose commands are not about modes do not depend on them. -/
theorem Functions.handler_unaware {functions : Functions} {m : MachineRef}
    (h : ∀ name, ∀ i ∈ (functions name).body, i.isAboutMode = false) :
    functions.handler.Unaware m :=
  fun name _ => (unaware_lawful m).handler (fun _ v _ => unaware_fixed m v) (.inr h) name
    fun v _ => v.within_any fun _ => trivial

/-- The same holds of a whole session. -/
theorem Session.program_unaware {script : List Instruction} {m : MachineRef}
    (h : ∀ i ∈ script, i.isAboutMode = false) : (program script).Unaware m := by
  induction script with
  | nil => exact .ret []
  | cons i rest ih =>
    obtain ⟨hFirst, hRest⟩ := List.forall_mem_cons.mp h
    refine Program.Unaware.bind (Run.perform_unaware .outermost hFirst) fun outcome => ?_
    exact (ih hRest).bind fun others => .ret _

end RuleMachine
