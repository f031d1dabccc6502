import RuleMachine.Proofs.Entries
import RuleMachine.Proofs.Renaming.Worlds

/-!
# Programs that correspond

Much is shown of the engine and of scripts in one way: it holds of primitive operations and of calls
if what these are given is known, and it is kept by everything that programs are put together with.
Then it holds of all that the engine and scripts do, and nothing else about them matters.

A `Correspondence` is something that can be shown in this way. It says which program may take the
place of which, where NaNs, streams and machines have other numbers, and it may restrict what
programs do. Properties of single programs are among these, as nothing needs to be said of the
second one.

* `Correspondence.Closed`: what is kept by doing one thing after the other.
* `Correspondence.Lawful`: what is kept by everything, the mode of machines left aside.
-/

namespace RuleMachine

-- ---------------------------------------------------------------------------
-- Answers
-- ---------------------------------------------------------------------------

namespace Contents

variable {α : Type}

/-- What comes of a program that may fail. -/
def outcome (c : Contents α) : Contents (Except Fault α) where
  rename ρ := mapOutcome (Fault.rename ρ) (c.rename ρ)
  Within known r := ∀ a, r = .ok a → c.Within known a
  within_any h _ a _ := c.within_any h a

/-- Answers to whoever gives commands. No program goes on with them. -/
def reply : Contents Reply where
  rename := Reply.rename
  Within _ _ := True
  within_any _ _ := trivial

end Contents

-- ---------------------------------------------------------------------------
-- Modes
-- ---------------------------------------------------------------------------

/-- Whether a primitive operation reads or sets the mode of a machine. -/
def Primitive.isAboutMode {β : Type} (p : Primitive β) : Bool :=
  match p with
  | .look (.strict _) | .adjust _ (.strict _) => true
  | _ => false

/-- Whether the mode of a machine is read or set. Calling a function is not about it, whatever the
function does then. -/
def Act.isAboutMode : Act → Bool
  | .call _ _ => false
  | .perform p => p.isAboutMode

/-- Whether a primitive operation marks a machine as in use, or as no longer in use. -/
def Primitive.marksUse {β : Type} (p : Primitive β) : Bool :=
  match p with
  | .keep (.activate _) | .keep .release => true
  | _ => false

-- ---------------------------------------------------------------------------
-- Correspondences
-- ---------------------------------------------------------------------------

/-- Which programs correspond to which: where things have new numbers, only some machines and states
are known, and only some things are done. `c` says where the values are in the answers. -/
structure Correspondence where
  ρ : Renaming
  known : Value → Prop
  allows : Act → Prop
  Holds : {α : Type} → (c : Contents α) → Run α → Run α → Prop

namespace Correspondence

/-- Whether programs that do one thing after the other correspond if what they do does. -/
structure Closed (R : Correspondence) : Prop where
  home : ∀ s : StateRef, R.known (.state s) ↔ R.known (.machine s.machine)
  looks : ∀ {β : Type} (q : Query β), (Primitive.look q).isAboutMode = false →
    R.allows (.perform (.look q))
  ofOutcome : ∀ {α : Type} {c : Contents α} {r : Except Fault α}, c.outcome.Within R.known r →
    R.Holds c (Run.ofOutcome r) (Run.ofOutcome (c.outcome.rename R.ρ r))
  bind : ∀ {α β : Type} {c : Contents α} {d : Contents β} {x x' : Run β} {k k' : β → Run α},
    R.Holds d x x' → (∀ b, d.Within R.known b → R.Holds c (k b) (k' (d.rename R.ρ b))) →
      R.Holds c (x >>= k) (x' >>= k')
  act : ∀ {α : Type} {p : Primitive α}, p.isReading = false → p.marksUse = false →
    R.allows (.perform p) → p.Within R.known →
      R.Holds p.contents (Run.act p) (Run.act (p.rename R.ρ))
  fail : ∀ {α : Type} {c : Contents α} (cause : Cause),
    R.allows (.perform (.fail cause : Primitive α)) →
      R.Holds c (Run.fail cause) (Run.fail (cause.rename R.ρ))
  call : ∀ {f : FunctionName} {args : List Value}, R.allows (.call f args) →
    (∀ v ∈ args, v.Within R.known) →
      R.Holds .value (Run.call f args) (Run.call f (args.map (Value.rename R.ρ)))

/-- Whether all programs correspond that are put together from what does, in whatever way.
Everything may be done that is not about the mode of a machine. The mode may be set of a machine
that was just built, and it may be read of every machine to choose a rule. -/
structure Lawful (R : Correspondence) : Prop extends Closed R where
  allowed : ∀ a : Act, a.isAboutMode = false → R.allows a
  reading : ∀ {α : Type} {c : Contents α} {r r' : Reading Cause α},
    r.AlikeOn R.known R.ρ (Cause.rename R.ρ) (c.rename R.ρ) r' → r.Takes →
      r.Drains R.known (c.Within R.known) → R.Holds c (Run.reading r) (Run.reading r')
  outcome : ∀ {α : Type} {c : Contents α} {x x' : Run α},
    R.Holds c x x' → R.Holds c.outcome (Run.outcome x) (Run.outcome x')
  keeping : ∀ {α : Type} {c : Contents α} {x x' : Run α} {m : MachineRef}, R.known (.machine m) →
    R.Holds c x x' → R.Holds c (Run.keeping m x) (Run.keeping (R.ρ .machine m) x')
  repeatUntil : ∀ {α : Type} {c : Contents α} {x x' : Run (Option α)},
    R.Holds c.option x x' → R.Holds c (Run.repeatUntil x) (Run.repeatUntil x')
  construct : ∀ {α : Type} {c : Contents α} {table : Value} {k k' : MachineRef → Run α},
    table.Within R.known →
    (∀ m, R.known (.machine m) → (∀ b, R.allows (.perform (.adjust m (.strict b)))) →
      R.Holds c (k m) (k' (R.ρ .machine m))) →
    R.Holds c (Run.act (.construct table) >>= k)
      (Run.act (.construct (table.rename R.ρ)) >>= k')
  select : ∀ {m : MachineRef} {s : StateRef} {rules : List Rule} {inputs : List Value},
    ¬R.allows (.perform (.look (.strict m))) →
    R.Holds (.option .rule) (Run.select m s rules inputs)
      (Run.select (R.ρ .machine m) (s.rename R.ρ) (rules.map (Rule.rename R.ρ))
        (inputs.map (Value.rename R.ρ)))

-- ---------------------------------------------------------------------------
-- Rules that follow
-- ---------------------------------------------------------------------------

section

variable {R : Correspondence} {α β : Type} {c : Contents α} {d : Contents β}

/-- A result that is there without doing anything. -/
theorem Closed.pure (hR : R.Closed) {a : α} (h : c.Within R.known a) :
    R.Holds c (pure a) (pure (c.rename R.ρ a)) := by
  refine hR.ofOutcome (r := .ok a) fun b hb => ?_
  obtain rfl := Except.ok.inj hb
  exact h

/-- The same, where the second result is renamed only by a computation. -/
theorem Closed.pure_of_eq (hR : R.Closed) {a a' : α} (h : c.Within R.known a)
    (ha : a' = c.rename R.ρ a) : R.Holds c (Pure.pure a) (Pure.pure a') :=
  ha ▸ hR.pure h

/-- A question that is not about the mode. Asking it changes nothing, so it is always allowed. -/
theorem Closed.look (hR : R.Closed) {q : Query α} (h : q.Within R.known)
    (hMode : (Primitive.look q).isAboutMode = false) :
    R.Holds q.contents (Run.look q) (Run.look (q.rename R.ρ)) :=
  hR.act rfl rfl (hR.looks q hMode) h

/-- Computing with what a program gives. -/
theorem Closed.map (hR : R.Closed) {x x' : Run β} {k k' : β → α} (hx : R.Holds d x x')
    (h : ∀ b, d.Within R.known b →
      c.Within R.known (k b) ∧ k' (d.rename R.ρ b) = c.rename R.ρ (k b)) :
    R.Holds c (k <$> x) (k' <$> x') := by
  rw [map_eq_pure_bind, map_eq_pure_bind]
  exact hR.bind hx fun b hb => hR.pure_of_eq (h b hb).1 (h b hb).2

variable (hR : R.Lawful)
include hR

/-- A primitive operation of which nothing special is to be said. -/
theorem Lawful.does (p : Primitive α) (h : p.Within R.known)
    (hPlain : (p.isReading || p.marksUse || p.isAboutMode) = false) :
    R.Holds p.contents (Run.act p) (Run.act (p.rename R.ρ)) := by
  simp only [Bool.or_eq_false_iff] at hPlain
  obtain ⟨⟨hRead, hUse⟩, hMode⟩ := hPlain
  exact hR.act hRead hUse (hR.allowed _ hMode) h

/-- Bookkeeping that does not mark a machine as in use. -/
theorem Lawful.keep {b : Bookkeeping} (h : b.Within R.known)
    (hUse : (Primitive.keep b).marksUse = false) :
    R.Holds .plain (Run.keep b) (Run.keep (b.rename R.ρ)) :=
  hR.does (.keep b) h <| by
    simp only [hUse, Primitive.isReading, Primitive.isAboutMode, Bool.or_false]

/-- A failure, with every value in its cause renamed. -/
theorem Lawful.fail' (cause : Cause) :
    R.Holds c (Run.fail cause) (Run.fail (cause.rename R.ρ)) :=
  hR.fail cause (hR.allowed _ rfl)

/-- Something that may be missing, and the failure if it is. -/
theorem Lawful.require {a : Option α} (cause : Cause) (h : ∀ b ∈ a, c.Within R.known b) :
    R.Holds c (Run.require cause a) (Run.require (cause.rename R.ρ) (a.map (c.rename R.ρ))) := by
  cases a with
  | some a => exact hR.pure (h a rfl)
  | none => exact hR.fail' cause

theorem Lawful.require_of_eq {a a' : Option α} (cause : Cause) (h : ∀ b ∈ a, c.Within R.known b)
    (ha : a' = a.map (c.rename R.ρ)) :
    R.Holds c (Run.require cause a) (Run.require (cause.rename R.ρ) a') :=
  ha ▸ hR.require cause h

end

end Correspondence

end RuleMachine
