import RuleMachine.Proofs.Correspondence.Engine

/-!
# How a rule is chosen

Until a switch has chosen a rule it does nothing but ask predicates, of the state that was current
when it began, with that state and the inputs. Whatever comes of that, the switch goes on in the
world that the predicates left: it follows the rule chosen, it reports that there is none, or it
fails.

* `Program.DoesOnly`: what a program could do at most.
* `Run.choose_doesOnly`: choosing a rule is asking predicates, and reporting an ambiguity.
* `Run.Does.trySwitch`: what a switch does, it does while choosing or in following the choice.
* `Config.ends_switch_none`: how a switch ends that finds no rule to follow.
-/

namespace RuleMachine

-- ---------------------------------------------------------------------------
-- What a program does at most
-- ---------------------------------------------------------------------------

/-- Whether a primitive operation only looks. -/
def Primitive.isLook {β : Type} : Primitive β → Bool
  | .look _ => true
  | _ => false

/-- Whether something only looks. Calling a function may do anything. -/
def Act.isLook : Act → Bool
  | .perform p => p.isLook
  | .call _ _ => false

/-- Whether everything that a program could do itself, apart from looking, is of some kind. -/
def Program.DoesOnly (P : Act → Prop) : {α : Type} → Program α → Prop
  | _, .ret _ => True
  | _, .perform p next =>
    ((Act.perform p).isLook = true ∨ P (.perform p)) ∧ ∀ r, (next r).DoesOnly P
  | _, .call f args next => P (.call f args) ∧ ∀ r, (next r).DoesOnly P
  | _, .loop body next => body.DoesOnly P ∧ ∀ b, (next b).DoesOnly P

namespace Program.DoesOnly

variable {P : Act → Prop} {α β : Type}

/-- One program after the other does what either does. -/
theorem bind {p : Program α} {k : α → Program β} (hp : p.DoesOnly P)
    (hk : ∀ a, (k a).DoesOnly P) : (p.bind k).DoesOnly P := by
  induction p with
  | ret a => exact hk a
  | perform op next ih => exact ⟨hp.1, fun r => ih r (hp.2 r) hk⟩
  | call f args next ih => exact ⟨hp.1, fun r => ih r (hp.2 r) hk⟩
  | loop body next _ ih => exact ⟨hp.1, fun b => ih b (hp.2 b) hk⟩

/-- A loop does what its rounds do. -/
theorem unroll {body : Program (Option β)} {next : β → Program α} (hBody : body.DoesOnly P)
    (hNext : ∀ b, (next b).DoesOnly P) : (Program.unroll body next).DoesOnly P := by
  refine hBody.bind fun r => ?_
  cases r with
  | some b => exact hNext b
  | none => exact ⟨hBody, hNext⟩

end Program.DoesOnly

/-- What a program did is of the kind that it is restricted to. -/
theorem Config.Did.doesOnly {handler : Handler} {α : Type} {c c' : Config α} {ds : List Deed}
    {P : Act → Prop} (h : c.Did handler ds c') (hOnly : c.program.DoesOnly P) :
    ∀ d ∈ ds, P d.act := by
  induction h with
  | refl c => simp
  | @perform _ p next w _ _ rest ih =>
    intro d hd
    rcases List.mem_append.mp hd with hd | hd
    · rcases hOnly.1 with hLook | hP
      · -- a look at the world is no deed
        cases p with
        | look q => cases hd
        | _ => cases hLook
      · obtain rfl := Primitive.mem_deeds hd
        exact hP
    · exact ih (hOnly.2 _) d hd
  | call hCall rest ih =>
    intro d hd
    rcases List.mem_cons.mp hd with rfl | hd
    · exact hOnly.1
    · exact ih (hOnly.2 _) d hd
  | loop rest ih => exact ih (hOnly.1.unroll hOnly.2)

/-- Whether everything that a program that may fail could do itself is of some kind. -/
def Run.DoesOnly {α : Type} (P : Act → Prop) (x : Run α) : Prop := (ExceptT.run x).DoesOnly P

namespace Run

variable {P : Act → Prop} {α β : Type}

/-- If the first program fails, nothing more is done. -/
theorem DoesOnly.bind {x : Run α} {f : α → Run β} (hx : x.DoesOnly P)
    (hf : ∀ a, (f a).DoesOnly P) : (x >>= f).DoesOnly P := by
  rw [DoesOnly, run_bind]
  refine Program.DoesOnly.bind hx fun r => ?_
  cases r with
  | ok a => exact hf a
  | error fault => trivial

theorem doesOnly_pure (a : α) : (pure a : Run α).DoesOnly P := trivial

/-- Looking is allowed in any case. -/
theorem doesOnly_look (q : Query α) : (look q).DoesOnly P := ⟨.inl rfl, fun _ => trivial⟩

/-- A single primitive operation, if it is allowed. -/
theorem doesOnly_act {p : Primitive α} (h : P (.perform p)) : (act p).DoesOnly P :=
  ⟨.inr h, fun _ => trivial⟩

/-- A single call, if it is allowed. -/
theorem doesOnly_call {f : FunctionName} {args : List Value} (h : P (.call f args)) :
    (call f args).DoesOnly P := ⟨h, fun _ => trivial⟩

end Run

/-- Doing only what is of some kind, apart from looking, as a correspondence. Nothing is renamed and
everything is known. -/
def Correspondence.doesOnly (P : Act → Prop) : Correspondence where
  ρ := .identity
  known _ := True
  allows a := a.isLook = true ∨ P a
  Holds _ x _ := x.DoesOnly P

/-- Whatever does one thing after the other does only what is of a kind if the things are. -/
theorem Correspondence.doesOnly_closed (P : Act → Prop) : (doesOnly P).Closed where
  home _ := .rfl
  looks _ _ := .inl rfl
  ofOutcome _ := trivial
  bind hx hk := hx.bind fun b => hk b (Contents.within_any _ (fun _ => trivial) b)
  act _ _ hP _ := ⟨hP, fun _ => trivial⟩
  fail _ hP := ⟨hP, fun _ => trivial⟩
  call hP _ := ⟨hP.resolve_left Bool.false_ne_true, fun _ => trivial⟩

-- ---------------------------------------------------------------------------
-- Choosing and entering
-- ---------------------------------------------------------------------------

namespace Run

open Correspondence (doesOnly_closed)

variable {P : Act → Prop} {rules : List Rule}

/-- Whoever looks for all rules that apply asks predicates and does nothing else. -/
theorem matching_doesOnly {args : List Value} (hAsks : ∀ a, Asks args rules a → P a) :
    (matching args rules).DoesOnly P :=
  (doesOnly_closed P).matching (fun v _ => v.within_any fun _ => trivial)
    (fun rule _ => Contents.rule.within_any (fun _ => trivial) rule) fun a ha => .inr (hAsks a ha)

/-- Looking names up is looking. -/
theorem namesOf_doesOnly (states : List StateRef) : (namesOf states).DoesOnly P :=
  (doesOnly_closed P).namesOf fun s (_ : s ∈ states) => trivial

/-- Whoever looks for the first rule that applies asks predicates, too. -/
theorem firstMatch_doesOnly {args : List Value} (hAsks : ∀ a, Asks args rules a → P a) :
    (firstMatch args rules).DoesOnly P :=
  (doesOnly_closed P).firstMatch (fun v _ => v.within_any fun _ => trivial)
    (fun rule _ => Contents.rule.within_any (fun _ => trivial) rule) fun a ha => .inr (hAsks a ha)

/-- **Choosing a rule is asking predicates.** The only other thing it can do is to report that more
than one rule holds. -/
theorem choose_doesOnly {s : StateRef} {strict : Bool} {inputs : List Value}
    (hAsks : ∀ a, Asks (.state s :: inputs) rules a → P a)
    (hFail : ∀ name candidates,
      P (.perform (.fail (.ambiguous name candidates) : Primitive (Option Rule)))) :
    (choose s rules strict inputs).DoesOnly P :=
  (doesOnly_closed P).choose trivial
    (fun rule _ => Contents.rule.within_any (fun _ => trivial) rule)
    (fun v _ => v.within_any fun _ => trivial) (fun a ha => .inr (hAsks a ha))
    (fun name candidates => .inr (hFail name candidates)) strict

/-- A switch that finds nothing fails in one of two ways. -/
theorem insist_doesOnly {m : MachineRef}
    (hNotStarted : P (.perform (.fail .notStarted : Primitive StateRef)))
    (hNoTransition : ∀ name, P (.perform (.fail (.noTransition name) : Primitive StateRef)))
    (found : Option StateRef) : (insist m found).DoesOnly P :=
  (doesOnly_closed P).insist trivial (.inr hNotStarted) (fun name => .inr (hNoTransition name))
    fun s (_ : s ∈ found) => trivial

section

variable (hCall : ∀ f args, P (.call f args))
include hCall

/-- Running actions calls functions. -/
theorem runActions_doesOnly (functions : List FunctionName) (args : List Value) :
    (runActions functions args).DoesOnly P :=
  (doesOnly_closed P).runActions (fun f args => .inr (hCall f args)) functions
    fun v _ => v.within_any fun _ => trivial

/-- Which actions a state has is looked up. -/
theorem runSlot_doesOnly (s : StateRef) (slot : ActionSlot) : (runSlot s slot).DoesOnly P :=
  (doesOnly_closed P).runSlot (s := s) (fun f args => .inr (hCall f args)) trivial slot

theorem leave_doesOnly (source : Option StateRef) : (leave source).DoesOnly P :=
  (doesOnly_closed P).leave (fun f args => .inr (hCall f args)) fun s (_ : s ∈ source) => trivial

/-- Entering a state is calling functions and committing to it. -/
theorem enter_doesOnly {target : StateRef} (hCommit : P (.perform (.commit target)))
    (actions : List FunctionName) : (enter target actions).DoesOnly P :=
  (doesOnly_closed P).enter (fun f args => .inr (hCall f args)) trivial (.inr hCommit) actions

end

end Run

/-- Why a machine is not moved by a switch without a rule to follow. -/
def World.standstill (w : World) (m : MachineRef) : Cause :=
  match w.current? m with
  | some s => .noTransition (w.state s).name
  | none => .notStarted

@[simp] theorem World.standstill_record (w : World) (ref : MachineRef) (r : Record)
    (m : MachineRef) : (w.record ref r).standstill m = w.standstill m := rfl

/-- Choosing a rule out of a state of a machine, in the mode that the machine is in. -/
def World.choice (w : World) (m : MachineRef) (s : StateRef) (inputs : List Value) :
    Run (Option Rule) :=
  Run.choose s (w.state s).rules (w.machine m).strict inputs

-- ---------------------------------------------------------------------------
-- What a program does in a world
-- ---------------------------------------------------------------------------

/-- Whether everything that a program does itself in a world, apart from looking, is of a kind. -/
def Run.Does (handler : Handler) (w : World) (P : Act → Prop) {α : Type} (x : Run α) : Prop :=
  ∀ ds c', (Config.begin x w).Did handler ds c' → ∀ d ∈ ds, P d.act

namespace Run

variable {handler : Handler} {w : World} {P : Act → Prop} {α β : Type}

/-- What a program could do at most it does at most in every world. -/
theorem DoesOnly.does {x : Run α} (h : x.DoesOnly P) : Does handler w P x :=
  fun _ _ hDid => hDid.doesOnly h

/-- After a question a program goes on with the answer. -/
theorem Does.look {q : Query β} {b : β} {f : β → Run α} (hAnswer : q.answer w = .ok b)
    (h : Does handler w P (f b)) : Does handler w P (Run.look q >>= f) := by
  intro ds c' hDid
  cases hDid with
  | refl => simp
  | perform rest =>
    have hEffect : (Primitive.look q).effect w = (.ok b, w) := by rw [Primitive.effect, hAnswer]
    rw [hEffect] at rest
    exact h _ c' rest

/-- What comes second happens in a world that the first program ends in. -/
theorem Does.bind {x : Run β} {f : β → Run α} (hx : Does handler w P x)
    (hf : ∀ b w₁, (Config.begin x w).Ends handler (.ok b) w₁ → Does handler w₁ P (f b)) :
    Does handler w P (x >>= f) := by
  intro ds c' hDid
  rw [Config.begin, run_bind] at hDid
  -- either the first part is still running, or it ended and the rest has begun
  rcases hDid.of_bind with ⟨p', hDid, -, -⟩ | ⟨ds₁, ds₂, r, w₁, rfl, hDid, hRest⟩
  · exact hx ds _ hDid
  · have hRest : ∀ d ∈ ds₂, P d.act := by
      cases r with
      | ok b => exact hf b w₁ hDid.leads ds₂ c' hRest
      | error fault =>
        cases hRest
        simp
    intro d hd
    rcases List.mem_append.mp hd with hd | hd
    · exact hx ds₁ _ hDid d hd
    · exact hRest d hd

/-- **What a switch does, it does while choosing or in following the choice.** -/
theorem Does.trySwitch {m : MachineRef} {s : StateRef} {inputs : List Value}
    (hCurrent : w.current? m = some s) (hChoice : Does handler w P (w.choice m s inputs))
    (hFollow : ∀ r w₁, (Config.begin (w.choice m s inputs) w).Ends handler (.ok r) w₁ →
      Does handler w₁ P (follow m s r)) : Does handler w P (Run.trySwitch m inputs) := by
  have hAnswer : (Query.current m).answer w = .ok (some s) := by rw [Query.answer, hCurrent]
  simp only [trySwitch_eq, currentState, bind_assoc]
  refine look hAnswer (look rfl (look rfl ?_))
  exact hChoice.bind hFollow

end Run

namespace Config

variable {handler : Handler} {α β : Type} {w w₁ : World}

-- ---------------------------------------------------------------------------
-- From the beginning of a switch to the choice
-- ---------------------------------------------------------------------------

/-- In an execution the question takes one step. -/
theorem leads_look {q : Query β} {b : β} (h : q.answer w = .ok b) (f : β → Run α) :
    (begin (Run.look q >>= f) w).Leads handler (begin (f b) w) :=
  .of_next (next_act (standard_look h) f)

variable {m : MachineRef} {s : StateRef} {inputs : List Value}

/-- A switch begins by choosing. -/
theorem leads_choice (hCurrent : w.current? m = some s) :
    (begin (Run.trySwitch m inputs) w).Leads handler
      (begin (w.choice m s inputs >>= Run.follow m s) w) := by
  have hAnswer : (Query.current m).answer w = .ok (some s) := by rw [Query.answer, hCurrent]
  simp only [Run.trySwitch_eq, Run.currentState, bind_assoc]
  refine (leads_look hAnswer _).trans ?_
  refine (leads_look rfl _).trans ?_
  exact leads_look rfl _

/-- A switch with nothing to follow says so and ends. -/
theorem ends_trySwitch_none (hCurrent : w.current? m = some s)
    (hChoice : (begin (w.choice m s inputs) w).Ends handler (.ok none) w₁) :
    (begin (Run.trySwitch m inputs) w).Ends handler (.ok none)
      ((Bookkeeping.noTransition m (w₁.state s).name).apply w₁) := by
  refine (leads_choice hCurrent).trans ((hChoice.bind _).trans ?_)
  refine (leads_look rfl _).trans ?_
  exact .of_next (next_act rfl _)

/-- A switch that fails to choose fails. -/
theorem ends_trySwitch_error {fault : Fault} (hCurrent : w.current? m = some s)
    (hChoice : (begin (w.choice m s inputs) w).Ends handler (.error fault) w₁) :
    (begin (Run.trySwitch m inputs) w).Ends handler (.error fault) w₁ :=
  (leads_choice hCurrent).trans (hChoice.bind_error _)

/-- A switch that finds nothing fails with what is wrong where the machine stands. -/
theorem ends_insist_none (m : MachineRef) (w : World) :
    (begin (Run.insist m none) w).Ends handler (.error (w.fault (w.standstill m))) w := by
  rw [World.standstill]
  cases hCurrent : w.current? m with
  | some t =>
    have hAnswer : (Query.current m).answer w = .ok (some t) := by rw [Query.answer, hCurrent]
    simp only [Run.insist, Run.currentState, bind_assoc]
    refine (leads_look hAnswer _).trans ?_
    refine (leads_look rfl _).trans ?_
    exact .of_next rfl
  | none =>
    have hAnswer : (Query.current m).answer w = .ok none := by rw [Query.answer, hCurrent]
    simp only [Run.insist, Run.currentState, bind_assoc]
    refine (leads_look hAnswer _).trans ?_
    exact .of_next rfl

/-- A switch that must find a rule to follow fails without one, and names the state that is current
by then. -/
theorem ends_switch_none (hCurrent : w.current? m = some s)
    (hChoice : (begin (w.choice m s inputs) w).Ends handler (.ok none) w₁) :
    let w₂ := (Bookkeeping.noTransition m (w₁.state s).name).apply w₁
    (begin (Run.switch m inputs) w).Ends handler (.error (w₂.fault (w₂.standstill m))) w₂ := by
  rw [Run.switch_eq]
  exact ((ends_trySwitch_none hCurrent hChoice).bind _).trans (ends_insist_none m _)

/-- A choice that fails makes the whole switch fail, with the same failure. -/
theorem ends_switch_error {fault : Fault} (hCurrent : w.current? m = some s)
    (hChoice : (begin (w.choice m s inputs) w).Ends handler (.error fault) w₁) :
    (begin (Run.switch m inputs) w).Ends handler (.error fault) w₁ := by
  rw [Run.switch_eq]
  exact (ends_trySwitch_error hCurrent hChoice).bind_error _

end Config

end RuleMachine
