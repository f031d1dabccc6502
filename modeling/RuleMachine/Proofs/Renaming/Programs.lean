import RuleMachine.Proofs.Tidy

/-!
# Programs under new numbers

Programs are alike if they perform alike primitive operations, call the same functions with renamed
arguments, and go on alike whatever comes of it. Executions of alike programs in worlds that differ
by a renaming keep step.

This may take that not too much is made, and that only some machines are mentioned: a machine that
is yet to be built has no number that could be renamed. So there are last numbers, up to which the
executions are compared, and what is known up to there.

* `Program.Alike`: programs that are alike.
* `Program.Alike.after`: their executions.
* `Functions.handler_alike`, `Run.perform_alike`: scripts do alike things with renamed values.
-/

namespace RuleMachine

/-- What may be known in executions that make things up to some last numbers. -/
structure Renaming.Scope (ρ : Renaming) (last : Supply) (known : Value → Prop) : Prop where
  home : ∀ s : StateRef, known (.state s) ↔ known (.machine s.machine)
  /-- Machines that are built become known. -/
  new : ∀ m < last .machine, known (.machine m)
  apart : ρ.Apart last known

-- ---------------------------------------------------------------------------
-- Alike programs
-- ---------------------------------------------------------------------------

/-- Whether two programs do alike things and come to the same, in whatever worlds they do them that
mention only what is known and in which they make things up to some last numbers. -/
inductive Program.Alike (ρ : Renaming) (last : Supply) (known : Value → Prop) :
    {α : Type} → Contents α → Program α → Program α → Prop
  | ret {α : Type} {c : Contents α} {a a' : α} (h : c.Within known a) (hSame : a' = c.rename ρ a) :
    Alike ρ last known c (.ret a) (.ret a')
  | perform {α β : Type} {c : Contents α} {g : β → β} {p p' : Primitive β}
      {next next' : Except Fault β → Program α}
      (hWithin : ∀ w : World, w.Within known → (p.effect w).2.supply ≤ last →
        (p.effect w).2.Within known)
      (hAlike : ∀ {base base' w w'}, w.Within known → (p.effect w).2.supply ≤ last →
        World.Renamed ρ last base base' w w' → p.Alike ρ last base base' g p' w w')
      (hNext : ∀ w : World, w.Within known → (p.effect w).2.supply ≤ last →
        Alike ρ last known c (next (p.outcome w))
          (next' (mapOutcome (Fault.rename ρ) g (p.outcome w)))) :
    Alike ρ last known c (.perform p next) (.perform p' next')
  | call {α : Type} {c : Contents α} {next next' : Except Fault Value → Program α}
      {f : FunctionName} {args : List Value} (hArgs : ∀ v ∈ args, v.Within known)
      (hNext : ∀ r, Contents.value.outcome.Within known r →
        Alike ρ last known c (next r) (next' (Contents.value.outcome.rename ρ r))) :
    Alike ρ last known c (.call f args next) (.call f (args.map (Value.rename ρ)) next')
  | loop {α β : Type} {c : Contents α} {d : Contents β} {body body' : Program (Option β)}
      {next next' : β → Program α} (hBody : Alike ρ last known d.option body body')
      (hNext : ∀ b, d.Within known b → Alike ρ last known c (next b) (next' (d.rename ρ b))) :
    Alike ρ last known c (.loop body next) (.loop body' next')

/-- The same for programs that may fail. -/
def Run.Alike (ρ : Renaming) (last : Supply) (known : Value → Prop) {α : Type} (c : Contents α)
    (x x' : Run α) : Prop :=
  Program.Alike ρ last known c.outcome (ExceptT.run x) (ExceptT.run x')

/-- Whether functions do alike things when they are called with renamed arguments. -/
def Handler.Alike (ρ : Renaming) (last : Supply) (known : Value → Prop) (handler : Handler) :
    Prop :=
  ∀ f args, (∀ v ∈ args, v.Within known) →
    Run.Alike ρ last known .value (handler f args) (handler f (args.map (Value.rename ρ)))

variable {ρ : Renaming} {last : Supply} {known : Value → Prop}

namespace Program.Alike

variable {α β : Type} {c : Contents α} {d : Contents β}

theorem of_ret {a : α} {p' : Program α} (h : Alike ρ last known c (.ret a) p') :
    c.Within known a ∧ p' = .ret (c.rename ρ a) := by
  cases h with
  | ret h hSame => exact ⟨h, congrArg Program.ret hSame⟩

/-- One program after another. -/
theorem bind {p p' : Program β} {q q' : β → Program α} (hp : Alike ρ last known d p p')
    (hq : ∀ b, d.Within known b → Alike ρ last known c (q b) (q' (d.rename ρ b))) :
    Alike ρ last known c (p.bind q) (p'.bind q') := by
  induction hp with
  | ret h hSame =>
    subst hSame
    exact hq _ h
  | perform hWithin hAlike _ ih =>
    exact .perform hWithin hAlike fun w hw hLast => ih w hw hLast hq
  | call hArgs _ ih => exact .call hArgs fun r hr => ih r hr hq
  | loop hBody _ _ ih => exact .loop hBody fun b hb => ih b hb hq

/-- The rounds of two loops are alike, so they end after the same number of rounds. -/
theorem unroll {body body' : Program (Option β)} {next next' : β → Program α}
    (hBody : Alike ρ last known d.option body body')
    (hNext : ∀ b, d.Within known b → Alike ρ last known c (next b) (next' (d.rename ρ b))) :
    Alike ρ last known c (.unroll body next) (.unroll body' next') := by
  refine hBody.bind fun r hr => ?_
  cases r with
  | some b => exact hNext b (hr b rfl)
  | none => exact .loop hBody hNext

/-- **Executions of alike programs keep step.** After any number of steps what is left of them is
alike, and the worlds still differ by the renaming, unless the first of them has made more than it
was to make. -/
theorem after {handler : Handler} (hHandler : handler.Alike ρ last known)
    (hTidyHandler : handler.Tidy) {p p' : Program α} {level : Nat}
    (h : Alike ρ last known c p p') (hTidy : p.Tidy level) {w : World} (hw : w.Within known)
    (n : Nat)
    (hLast : (Config.after .standard handler n { program := p, world := w }).world.supply ≤ last) :
    let moment : Config α := Config.after .standard handler n { program := p, world := w }
    moment.world.Within known ∧ ∃ q', Alike ρ last known c moment.program q' ∧
      ∀ {base base' w'}, World.Renamed ρ last base base' w w' →
        ∃ v', Config.after .standard handler n { program := p', world := w' } =
            { program := q', world := v' } ∧
          World.Renamed ρ last base base' moment.world v' := by
  intro moment
  induction n generalizing p p' level w with
  | zero => exact ⟨hw, p', h, fun hRenamed => ⟨_, rfl, hRenamed⟩⟩
  | succ n ih =>
    cases h with
    | ret h hSame =>
      refine ⟨hw, _, .ret h hSame, fun hRenamed => ⟨_, ?_, hRenamed⟩⟩
      exact Config.after_ret _ _ _
    | @perform _ β _ g op op' next next' hWithin hAlike hNext =>
      cases hTidy with
      | perform hSupply hLevel hRest =>
        -- what is made by then has been made within the last numbers
        obtain ⟨-, -, hGrows, -⟩ := (hRest w).after hTidyHandler (op.effect w).2 n
        have hNow : (op.effect w).2.supply ≤ last := hGrows.trans hLast
        obtain ⟨hEnd, q', hLeft, hSteps⟩ :=
          ih (hNext w hw hNow) (hRest w) (hWithin w hw hNow) hLast
        refine ⟨hEnd, q', hLeft, fun {base base' w'} hRenamed => ?_⟩
        have hBoth := hAlike hw hNow hRenamed
        obtain ⟨v', hAfter, hv⟩ := hSteps hBoth.worlds
        rw [← hRenamed.outcome hBoth] at hAfter
        exact ⟨v', hAfter, hv⟩
    | @call _ _ next next' f args hArgs hNext =>
      cases hTidy with
      | call hRest =>
        have hTidyCall := Program.Tidy.bind (hTidyHandler f args) hRest
        rw [Nat.zero_add] at hTidyCall
        obtain ⟨hEnd, q', hLeft, hSteps⟩ :=
          ih ((hHandler f args hArgs).bind hNext) hTidyCall (hw.emit (.called f args)) hLast
        exact ⟨hEnd, q', hLeft, fun hRenamed => hSteps (hRenamed.emit (.called f args))⟩
    | loop hBody hNext =>
      cases hTidy with
      | loop hTidyBody hRest => exact ih (hBody.unroll hNext) (hTidyBody.unroll hRest) hw hLast

end Program.Alike

-- ---------------------------------------------------------------------------
-- Everything that is put together is alike
-- ---------------------------------------------------------------------------

namespace Run.Alike

variable {α β : Type} {c : Contents α} {d : Contents β}

/-- One program after the other. The second one may count on what the first one gives. -/
theorem bind {x x' : Run β} {k k' : β → Run α} (hx : Alike ρ last known d x x')
    (hk : ∀ b, d.Within known b → Alike ρ last known c (k b) (k' (d.rename ρ b))) :
    Alike ρ last known c (x >>= k) (x' >>= k') := by
  unfold Run.Alike
  rw [run_bind, run_bind]
  refine Program.Alike.bind hx fun r hr => ?_
  cases r with
  | ok b => exact hk b (hr b rfl)
  | error fault => exact .ret (fun _ h => by cases h) rfl

/-- Primitive operations that do not read definitions. -/
theorem act (hScope : ρ.Scope last known) {p : Primitive α} (h : p.Within known)
    (hRead : p.isReading = false) :
    Alike ρ last known p.contents (act p) (act (p.rename ρ)) := by
  have hWithin (w : World) (hw : w.Within known) (hLast : (p.effect w).2.supply ≤ last) :=
    Primitive.effect_within hScope.home hw h fun hNew =>
      hScope.new _ (Nat.lt_of_lt_of_le hNew (hLast .machine))
  refine .perform (fun w hw hLast => (hWithin w hw hLast).1)
    (fun hw hLast hRenamed => hRenamed.alike hScope.apart hw h hRead hLast) fun w hw hLast => ?_
  exact .ret (fun a ha => (hWithin w hw hLast).2 a (Primitive.answer_of_outcome ha)) rfl

/-- Readings that are alike, in programs that may fail. -/
theorem reading {r r' : Reading Cause α}
    (hr : r.AlikeOn known ρ (Cause.rename ρ) (c.rename ρ) r')
    (hDrains : r.Drains known (c.Within known)) :
    Alike ρ last known c (reading r) (reading r') := by
  refine .perform (fun w hw _ => { hw with streams := (hDrains w.streams hw.streams).1 })
    (fun hw _ hRenamed => hRenamed.alike_read hw hr) fun w hw _ => ?_
  exact .ret (fun a ha => (hDrains w.streams hw.streams).2 a (Primitive.answer_of_outcome ha)) rfl

/-- Failures with the same cause under new numbers. -/
theorem fail (cause : Cause) :
    Alike ρ last known c (Run.fail cause) (Run.fail (cause.rename ρ)) := by
  refine .perform (g := c.rename ρ) (fun w hw _ => hw) (fun _ _ hRenamed => ⟨rfl, hRenamed⟩)
    fun w _ _ => ?_
  exact .ret (fun _ h => by cases h) rfl

/-- A program of which it is told whether it fails. -/
theorem outcome {x x' : Run α} (h : Alike ρ last known c x x') :
    Alike ρ last known c.outcome (outcome x) (outcome x') :=
  Program.Alike.bind h fun _ hr => .ret (fun _ h => Except.ok.inj h ▸ hr) rfl

/-- A machine is marked as in use during both programs. -/
theorem keeping (hScope : ρ.Scope last known) {x x' : Run α} {m : MachineRef}
    (hm : known (.machine m)) (h : Alike ρ last known c x x') :
    Alike ρ last known c (keeping m x) (keeping (ρ .machine m) x') := by
  refine bind (act hScope (p := .keep (.activate m)) hm rfl) fun _ _ => ?_
  refine bind h.outcome fun r hr => ?_
  exact bind (act hScope (p := .keep .release) trivial rfl) fun _ _ => .ret hr rfl

/-- A loop that goes on until there is a result. -/
theorem repeatUntil {x x' : Run (Option α)} (h : Alike ρ last known c.option x x') :
    Alike ρ last known c (repeatUntil x) (repeatUntil x') := by
  refine .loop (d := c.outcome) (Program.Alike.bind h fun r hr => ?_) fun _ hr => .ret hr rfl
  rcases r with fault | _ | a
  · exact .ret (fun _ h => Option.some.inj h ▸ fun _ h => by cases h) rfl
  · exact .ret (fun _ h => by cases h) rfl
  · exact .ret (fun _ h => Option.some.inj h ▸ fun _ h => Except.ok.inj h ▸ hr _ rfl a rfl) rfl

end Run.Alike

/-- Being alike as a correspondence. Everything is allowed. -/
def Correspondence.alike (ρ : Renaming) (last : Supply) (known : Value → Prop) :
    Correspondence where
  ρ := ρ
  known := known
  allows _ := True
  Holds := Run.Alike ρ last known

/-- **Whatever is put together is alike under new numbers.** -/
theorem Correspondence.alike_lawful (hScope : ρ.Scope last known) :
    (alike ρ last known).Lawful where
  home := hScope.home
  looks _ _ := trivial
  ofOutcome h := .ret h rfl
  bind := Run.Alike.bind
  act hRead _ _ h := .act hScope h hRead
  fail cause _ := .fail cause
  call _ h := .call h fun _ hr => .ret hr rfl
  allowed _ _ := trivial
  reading hr _ hDrains := .reading hr hDrains
  outcome := Run.Alike.outcome
  keeping := Run.Alike.keeping hScope
  repeatUntil := Run.Alike.repeatUntil
  construct hTable hk :=
    Run.Alike.bind (.act hScope hTable rfl) fun m hm => hk m hm fun _ => trivial
  select hNever := absurd trivial hNever

open Correspondence (alike_lawful)

section

variable (hScope : ρ.Scope last known)
include hScope

/-- **Instructions do alike things** if their constants have no other numbers. -/
theorem Run.perform_alike {f : Frame} (hf : f.Within known) {i : Instruction}
    (h : ∀ v ∈ i.constants, v.Fixed ρ known) :
    Run.Alike ρ last known .reply (perform f i) (perform (f.rename ρ) i) :=
  (alike_lawful hScope).perform hf i (List.forall_mem_append.mp h).2 (.inl fun _ => trivial)

/-- **Functions that scripts define do alike things with renamed arguments.** -/
theorem Functions.handler_alike {functions : Functions}
    (h : ∀ name, ∀ v ∈ (functions name).constants, v.Fixed ρ known) :
    functions.handler.Alike ρ last known :=
  fun name _ hArgs => (alike_lawful hScope).handler h (.inl fun _ => trivial) name hArgs

end

end RuleMachine
