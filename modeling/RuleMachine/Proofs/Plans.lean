import RuleMachine.Proofs.Static

/-!
# Programs that follow plans

A plan is a list of what is to be done. A program follows it if it does one thing after the other,
stops where something fails, and fails in the same way. Programs that follow plans can be put
together, and follow one plan after the other.

* `Abides`: what a program did so far is according to a plan.
* `Follows`: whatever a program does is.
* `Follows.bind`: one program after another follows one plan after another.
-/

namespace RuleMachine

/-- What a program is about to do. -/
def Program.pending {α : Type} : Program α → List Act
  | .perform (.look _) _ => []
  | .perform p _ => [.perform p]
  | .call f args _ => [.call f args]
  | _ => []

/-- A program that has ended has nothing pending. -/
theorem Program.pending_ret {α : Type} (a : α) : (Program.ret a).pending = [] := rfl

/-- A program that has not ended is about to do the same, whatever is to follow it. -/
theorem Program.pending_bind {α β : Type} {p : Program β} (hRunning : ∀ b, p ≠ .ret b)
    (k : β → Program α) : (p.bind k).pending = p.pending ∧ ∀ a, p.bind k ≠ .ret a := by
  cases p with
  | ret b => exact absurd rfl (hRunning b)
  | perform op next => cases op <;> exact ⟨rfl, fun a h => by cases h⟩
  | call f args next => exact ⟨rfl, fun a h => by cases h⟩
  | loop body next => exact ⟨rfl, fun a h => by cases h⟩

/-- Whether what a program did so far, and what it is about to do, is according to a plan. -/
inductive Abides {α : Type} (plan : List Act) (Q : α → Prop) :
    List Deed → Program (Except Fault α) → Prop
  | returned {ds : List Deed} {a : α} (hFine : ∀ d ∈ ds, d.failure = none)
    (hPlan : ds.map Deed.act = plan) (hQ : Q a) : Abides plan Q ds (.ret (.ok a))
  | raised {ds : List Deed} {d : Deed} {fault : Fault} (hFine : ∀ d ∈ ds, d.failure = none)
    (hFailure : d.failure = some fault) (hPlan : (ds ++ [d]).map Deed.act <+: plan) :
    Abides plan Q (ds ++ [d]) (.ret (.error fault))
  | underway {ds : List Deed} {p : Program (Except Fault α)} (hRunning : ∀ r, p ≠ .ret r)
    (hFine : ∀ d ∈ ds, d.failure = none) (hPlan : ds.map Deed.act ++ p.pending <+: plan) :
    Abides plan Q ds p

/-- Whether a program carries out a plan, up to the first failure. -/
def Follows (handler : Handler) {α : Type} (w : World) (plan : List Act) (Q : α → Prop)
    (x : Run α) : Prop :=
  ∀ ds c', (Config.begin x w).Did handler ds c' → Abides plan Q ds c'.program

-- ---------------------------------------------------------------------------
-- What a plan says
-- ---------------------------------------------------------------------------

namespace Abides

variable {α β : Type} {plan : List Act} {Q : α → Prop}

/-- A program that has not ended does the same, whatever is to follow it. -/
theorem bind_of_running {P : β → Prop} {ds : List Deed} {p : Program (Except Fault β)}
    (h : Abides plan P ds p) (hRunning : ∀ r, p ≠ .ret r)
    (k : Except Fault β → Program (Except Fault α)) (plan' : List Act) :
    Abides (plan ++ plan') Q ds (p.bind k) := by
  cases h with
  | returned => exact absurd rfl (hRunning _)
  | raised => exact absurd rfl (hRunning _)
  | underway _ hFine hPlan =>
    obtain ⟨hPending, hGoing⟩ := Program.pending_bind hRunning k
    refine .underway hGoing hFine ?_
    rw [hPending]
    exact hPlan.trans (List.prefix_append _ _)

/-- What follows after everything went well is part of one longer plan. -/
theorem after {ds ds' : List Deed} {p : Program (Except Fault α)} (h : Abides plan Q ds' p)
    (hFine : ∀ d ∈ ds, d.failure = none) : Abides (ds.map Deed.act ++ plan) Q (ds ++ ds') p := by
  -- the deeds before are fine, so any failure is among the new ones
  have hBoth {ds' : List Deed} (hFine' : ∀ d ∈ ds', d.failure = none) :
      ∀ d ∈ ds ++ ds', d.failure = none := by
    intro d hd
    rcases List.mem_append.mp hd with hd | hd
    · exact hFine d hd
    · exact hFine' d hd
  cases h with
  | returned hFine' hPlan hQ =>
    exact .returned (hBoth hFine') (by rw [List.map_append, hPlan]) hQ
  | raised hFine' hFailure hPlan =>
    rw [← List.append_assoc]
    refine .raised (hBoth hFine') hFailure ?_
    rw [List.append_assoc, List.map_append]
    exact (List.prefix_append_right_inj _).mpr hPlan
  | underway hRunning hFine' hPlan =>
    refine .underway hRunning (hBoth hFine') ?_
    rw [List.map_append, List.append_assoc]
    exact (List.prefix_append_right_inj _).mpr hPlan

/-- What was done, and what is about to be done, begins the plan. -/
theorem order {ds : List Deed} {p : Program (Except Fault α)} (h : Abides plan Q ds p) :
    ds.map Deed.act ++ p.pending <+: plan := by
  cases h with
  | returned hFine hPlan hQ =>
    simp only [hPlan, Program.pending_ret, List.append_nil, List.prefix_rfl]
  | raised hFine hFailure hPlan => rwa [Program.pending_ret, List.append_nil]
  | underway hRunning hFine hPlan => exact hPlan

/-- Nothing is done after a failure. -/
theorem stops {ds : List Deed} {p : Program (Except Fault α)} (h : Abides plan Q ds p) :
    ∀ d ∈ ds.dropLast, d.failure = none := by
  cases h with
  | returned hFine hPlan hQ => exact fun d hd => hFine d (List.dropLast_subset ds hd)
  | raised hFine hFailure hPlan => rwa [List.dropLast_concat]
  | underway hRunning hFine hPlan => exact fun d hd => hFine d (List.dropLast_subset ds hd)

/-- What is still running has not failed. -/
theorem running {ds : List Deed} {p : Program (Except Fault α)} (h : Abides plan Q ds p)
    (hRunning : ∀ r, p ≠ .ret r) : ∀ d ∈ ds, d.failure = none := by
  cases h with
  | returned => exact absurd rfl (hRunning _)
  | raised => exact absurd rfl (hRunning _)
  | underway _ hFine _ => exact hFine

/-- A program that ended without failure did all of its plan, and nothing failed. -/
theorem of_ok {ds : List Deed} {a : α} (h : Abides plan Q ds (.ret (.ok a))) :
    Q a ∧ ds.map Deed.act = plan ∧ ∀ d ∈ ds, d.failure = none := by
  cases h with
  | returned hFine hPlan hQ => exact ⟨hQ, hPlan, hFine⟩
  | underway hRunning => exact absurd rfl (hRunning _)

/-- A program that ended with a failure did its last deed with that failure. -/
theorem of_error {ds : List Deed} {fault : Fault} (h : Abides plan Q ds (.ret (.error fault))) :
    ∃ d, ds.getLast? = some d ∧ d.failure = some fault := by
  generalize hp : (Program.ret (.error fault) : Program (Except Fault α)) = p at h
  cases h with
  | returned => cases hp
  | @raised _ d _ hFine hFailure hPlan =>
    cases hp
    exact ⟨d, List.getLast?_concat, hFailure⟩
  | underway hRunning => exact absurd hp.symm (hRunning _)

end Abides

-- ---------------------------------------------------------------------------
-- Plans of programs
-- ---------------------------------------------------------------------------

namespace Follows

variable {handler : Handler} {α β : Type} {w : World} {plan plan' : List Act}
  {P : α → Prop} {Q : β → Prop}

/-- A value follows the empty plan. -/
theorem ret {a : α} (hP : P a) : Follows handler w [] P (pure a) := by
  intro ds c' h
  cases h
  exact .returned (by simp) rfl hP

/-- What comes first is done first, and what comes second only if that does not fail. -/
theorem bind {x : Run α} {f : α → Run β} (hx : Follows handler w plan P x)
    (hf : ∀ a w', P a → w.SameTables w' → Follows handler w' plan' Q (f a)) :
    Follows handler w (plan ++ plan') Q (x >>= f) := by
  intro ds c' h
  rw [Config.begin, Run.run_bind] at h
  -- the first part is still running, or it ended and the second has begun
  rcases h.of_bind with ⟨p', hDid, hRunning, hProgram⟩ | ⟨ds₁, ds₂, r, w₁, rfl, hDid, hRest⟩
  · rw [hProgram]
    exact (hx _ _ hDid).bind_of_running hRunning _ plan'
  · cases hx _ _ hDid with
    | returned hFine hPlan hP =>
      rw [← hPlan]
      exact (hf _ w₁ hP hDid.leads.sameTables ds₂ c' hRest).after hFine
    -- a failure of the first part ends the whole within its own plan
    | raised hFine hFailure hPlan =>
      cases hRest
      rw [List.append_nil]
      exact .raised hFine hFailure (hPlan.trans (List.prefix_append _ _))
    | underway hRunning => exact absurd rfl (hRunning r)

/-- Looking is not part of a plan. -/
theorem look {q : Query α} {a : α} {f : α → Run β} (hAnswer : q.answer w = .ok a)
    (hf : Follows handler w plan Q (f a)) : Follows handler w plan Q (Run.look q >>= f) := by
  intro ds c' h
  cases h with
  -- a look is no deed, so it is not in the plan
  | refl =>
    have hPlan : ([] : List Deed).map Deed.act ++ [] <+: plan := List.nil_prefix
    exact .underway (by intro r hr; cases hr) (by simp) hPlan
  | perform rest =>
    have hEffect : (Primitive.look q).effect w = (.ok a, w) := by rw [Primitive.effect, hAnswer]
    rw [hEffect] at rest
    exact hf _ c' rest

/-- A call follows the plan of that call. -/
theorem call (f : FunctionName) (args : List Value) :
    Follows handler w [.call f args] (fun _ => True) (Run.call f args) := by
  intro ds c' h
  cases h with
  | refl => exact .underway (by intro r hr; cases hr) (by simp) (List.prefix_refl _)
  | @call _ _ _ _ w' r _ _ hCall rest =>
    cases rest
    cases r with
    | ok v => exact .returned (by simp [failure?]) rfl trivial
    | error fault =>
      have hFine : ∀ d ∈ ([] : List Deed), d.failure = none := by simp
      exact .raised hFine rfl (List.prefix_refl _)

/-- A commitment follows the plan of that commitment. -/
theorem commit (s : StateRef) :
    Follows handler w [.perform (.commit s)] (fun _ => True) (Run.act (.commit s)) := by
  intro ds c' h
  cases h with
  | refl => exact .underway (by intro r hr; cases hr) (by simp) (List.prefix_refl _)
  | perform rest =>
    cases rest
    refine .returned (fun d hd => ?_) rfl trivial
    rw [List.append_nil] at hd
    obtain rfl := Primitive.mem_deeds hd
    rfl

end Follows

end RuleMachine
