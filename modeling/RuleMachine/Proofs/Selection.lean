import RuleMachine.Proofs.Turns

/-!
# Which rule is selected

A switch asks the predicates of the rules of the current state one after the other, with the state
and the inputs, each in the world that the one before left. Ordinarily it stops at the first that
holds and follows that rule. In strict mode it asks all of them and follows the only rule that
holds; if several hold it fails, and names all their targets. A predicate that fails ends the switch
at once. The rules and the mode are those of the moment at which the switch began, whatever
predicates do to the machine.

* `Asked`: rules asked one after the other.
* `Decides`: what the rules of a state come to in either mode.
* `Config.did_choose`: where a choice stands at each of its moments.
* `Config.completes_of_decides`: what the rules come to, a choice does.
* `Config.rule_selection`: switches of started machines.
-/

namespace RuleMachine

-- ---------------------------------------------------------------------------
-- Asking rules
-- ---------------------------------------------------------------------------

/-- What is called when a rule is asked. A rule whose predicate is a constant calls nothing. -/
def Rule.question? (args : List Value) (rule : Rule) : Option Act :=
  match rule.predicate with
  | .function f => some (.call f args)
  | .constant _ => none

/-- The calls that asking rules comes to, in their order: one for each predicate that is a function.
-/
def questions (args : List Value) (rules : List Rule) : List Act :=
  rules.filterMap (Rule.question? args)

/-- Whether rules, asked one after the other in a world, give certain answers: what is done
meanwhile, and the world that is left. -/
inductive Asked (handler : Handler) (args : List Value) :
    World → List Rule → List Value → List Deed → World → Prop
  | nil (w : World) : Asked handler args w [] [] [] w
  | cons {w w₁ w₂ : World} {rule : Rule} {rest : List Rule} {v : Value} {vs : List Value}
    {asking others : List Deed}
    (hAsk : (Config.begin (Run.ask rule.predicate args) w).Completes handler asking (.ok v) w₁)
    (hRest : Asked handler args w₁ rest vs others w₂) :
    Asked handler args w (rule :: rest) (v :: vs) (asking ++ others) w₂

/-- Whether, of several rules, those before one are asked and then that one, with some outcome. The
rules after it are not asked. -/
inductive AskedTo (handler : Handler) (args : List Value) (w : World) (vs : List Value)
    (rule : Rule) (r : Except Fault Value) : List Rule → List Deed → World → Prop
  | intro {before after : List Rule} {w₁ w₂ : World} {asking last : List Deed}
    (hBefore : Asked handler args w before vs asking w₁)
    (hAsk : (Config.begin (Run.ask rule.predicate args) w₁).Completes handler last r w₂) :
    AskedTo handler args w vs rule r (before ++ rule :: after) (asking ++ last) w₂

/-- The rules that hold, going by the answers of their predicates. -/
def holding (rules : List Rule) (answers : List Value) : List Rule :=
  ((rules.zip answers).filter fun (_, v) => v.truthy).map Prod.fst

section

variable {handler : Handler} {args : List Value} {w w₁ w₂ : World} {rules rest : List Rule}
  {rule : Rule} {v : Value} {vs : List Value} {asking ds : List Deed}

/-- What is called when rules are asked. -/
theorem Asked.calls (h : Asked handler args w rules vs ds w₁) :
    ds.map Deed.act = questions args rules := by
  induction h with
  | nil w => rfl
  | @cons _ _ _ rule rest _ _ asking others hAsk _ ih =>
    -- a constant is its own answer, a function is called
    have hOwn : asking.map Deed.act = (rule.question? args).toList := by
      rw [Config.completes_ask] at hAsk
      rw [Rule.question?]
      cases hPredicate : rule.predicate with
      | constant v =>
        rw [hPredicate] at hAsk
        rw [hAsk.1]
        rfl
      | function f =>
        rw [hPredicate] at hAsk
        rw [hAsk.2]
        rfl
    rw [List.map_append, hOwn, ih, questions, questions, List.filterMap_cons]
    cases rule.question? args <;> rfl

/-- The first of several rules is the one in question. -/
theorem AskedTo.here {r : Except Fault Value} (rest : List Rule)
    (hAsk : (Config.begin (Run.ask rule.predicate args) w).Completes handler ds r w₁) :
    AskedTo handler args w [] rule r (rule :: rest) ds w₁ :=
  show AskedTo handler args w [] rule r ([] ++ rule :: rest) ([] ++ ds) w₁ from
    .intro (.nil w) hAsk

/-- Another rule is asked first. -/
theorem AskedTo.cons {first : Rule} {r : Except Fault Value}
    (hAsk : (Config.begin (Run.ask first.predicate args) w).Completes handler asking (.ok v) w₁)
    (h : AskedTo handler args w₁ vs rule r rest ds w₂) :
    AskedTo handler args w (v :: vs) rule r (first :: rest) (asking ++ ds) w₂ := by
  cases h with
  | intro hBefore hLast =>
    rw [← List.append_assoc]
    exact .intro (.cons hAsk hBefore) hLast

end

-- ---------------------------------------------------------------------------
-- What the rules of a state come to
-- ---------------------------------------------------------------------------

/-- That several rules of a state hold. -/
def World.ambiguity (w : World) (s : StateRef) (several : List Rule) : Cause :=
  .ambiguous (w.state s).name (several.map fun rule => (w.state rule.target).name)

/-- **What the rules of a state come to,** by the mode: what is done to find out, the rule to follow
if there is one, or the failure, and the world that is left. -/
inductive Decides (handler : Handler) (w : World) (s : StateRef) (rules : List Rule)
    (inputs : List Value) : Bool → List Deed → Except Fault (Option Rule) → World → Prop
  /-- Ordinarily the first rule that holds is followed, and those after it are not asked. -/
  | first {rule : Rule} {v : Value} {vs : List Value} {ds : List Deed} {w₁ : World}
    (hAsked : AskedTo handler (.state s :: inputs) w vs rule (.ok v) rules ds w₁)
    (hFalsy : ∀ v ∈ vs, v.truthy = false) (hTruthy : v.truthy = true) :
    Decides handler w s rules inputs false ds (.ok (some rule)) w₁
  /-- In strict mode all are asked, and the only one that holds is followed. -/
  | only {rule : Rule} {vs : List Value} {ds : List Deed} {w₁ : World}
    (hAsked : Asked handler (.state s :: inputs) w rules vs ds w₁)
    (hOne : holding rules vs = [rule]) :
    Decides handler w s rules inputs true ds (.ok (some rule)) w₁
  /-- In strict mode it is a failure if two or more hold. All their targets are named. -/
  | several {vs : List Value} {ds : List Deed} {w₁ : World}
    (hAsked : Asked handler (.state s :: inputs) w rules vs ds w₁)
    (hSeveral : 2 ≤ (holding rules vs).length) :
    Decides handler w s rules inputs true
      (ds ++ (Primitive.fail (w.ambiguity s (holding rules vs)) : Primitive (Option Rule)).deeds w₁)
      (.error (w₁.fault (w.ambiguity s (holding rules vs)))) w₁
  /-- In both modes no rule is followed if none holds. -/
  | none {strict : Bool} {vs : List Value} {ds : List Deed} {w₁ : World}
    (hAsked : Asked handler (.state s :: inputs) w rules vs ds w₁)
    (hFalsy : ∀ v ∈ vs, v.truthy = false) :
    Decides handler w s rules inputs strict ds (.ok none) w₁
  /-- In both modes a predicate that fails is the last to be asked. -/
  | failed {strict : Bool} {rule : Rule} {fault : Fault} {vs : List Value} {ds : List Deed}
    {w₁ : World}
    (hAsked : AskedTo handler (.state s :: inputs) w vs rule (.error fault) rules ds w₁)
    (hFalsy : strict = false → ∀ v ∈ vs, v.truthy = false) :
    Decides handler w s rules inputs strict ds (.error fault) w₁

/-- Where a choice stands that has not come to its end: what was done, the world by then, and what
is about to be done. In the ordinary mode none of the rules that were asked holds. -/
inductive Selecting (handler : Handler) (args : List Value) (w : World) (rules : List Rule)
    (strict : Bool) : List Deed → World → List Act → Prop
  /-- Nothing is about to be called. -/
  | looking {before after : List Rule} {vs : List Value} {ds : List Deed} {w₁ : World}
    {pending : List Act} (hRules : rules = before ++ after)
    (hBefore : Asked handler args w before vs ds w₁)
    (hFalsy : strict = false → ∀ v ∈ vs, v.truthy = false)
    (hPending : ∀ f args, .call f args ∉ pending) :
    Selecting handler args w rules strict ds w₁ pending
  /-- The next rule is about to be asked, or is being asked. -/
  | asking {before after : List Rule} {rule : Rule} {f : FunctionName} {vs : List Value}
    {ds : List Deed} {w₁ : World} (hRules : rules = before ++ rule :: after)
    (hFunction : rule.predicate = .function f) (hBefore : Asked handler args w before vs ds w₁)
    (hFalsy : strict = false → ∀ v ∈ vs, v.truthy = false) :
    Selecting handler args w rules strict ds w₁ [.call f args]

section

variable {handler : Handler} {args : List Value} {w w₁ w₂ : World} {rest : List Rule}
  {rule : Rule} {v : Value} {asking ds : List Deed} {strict : Bool}
  (hAsk : (Config.begin (Run.ask rule.predicate args) w).Completes handler asking (.ok v) w₁)
include hAsk

/-- A rule that was asked first, and in the lax mode did not hold, comes before the others. -/
theorem Selecting.cons {pending : List Act} (hFalsy : strict = false → v.truthy = false)
    (h : Selecting handler args w₁ rest strict ds w₂ pending) :
    Selecting handler args w (rule :: rest) strict (asking ++ ds) w₂ pending := by
  cases h with
  | looking hRules hBefore hFalsy' hPending =>
    subst hRules
    refine .looking rfl (.cons hAsk hBefore) (fun hLax => ?_) hPending
    exact List.forall_mem_cons.mpr ⟨hFalsy hLax, hFalsy' hLax⟩
  | asking hRules hFunction hBefore hFalsy' =>
    subst hRules
    refine .asking rfl hFunction (.cons hAsk hBefore) fun hLax => ?_
    exact List.forall_mem_cons.mpr ⟨hFalsy hLax, hFalsy' hLax⟩

end

/-- In the ordinary mode, a rule that does not hold makes no difference to what the others come to.
-/
theorem Decides.cons {handler : Handler} {w w₁ w₂ : World} {s : StateRef} {inputs : List Value}
    {rule : Rule} {rest : List Rule} {v : Value} {asking ds : List Deed}
    {r : Except Fault (Option Rule)}
    (hAsk : (Config.begin (Run.ask rule.predicate (.state s :: inputs)) w).Completes handler asking
      (.ok v) w₁)
    (hFalsy : v.truthy = false) (h : Decides handler w₁ s rest inputs false ds r w₂) :
    Decides handler w s (rule :: rest) inputs false (asking ++ ds) r w₂ := by
  -- the rule in front did not hold, so it decides nothing
  cases h with
  | first hAsked hFalsy' hTruthy =>
    exact .first (hAsked.cons hAsk) (List.forall_mem_cons.mpr ⟨hFalsy, hFalsy'⟩) hTruthy
  | none hAsked hFalsy' =>
    exact .none (.cons hAsk hAsked) (List.forall_mem_cons.mpr ⟨hFalsy, hFalsy'⟩)
  | failed hAsked hFalsy' =>
    exact .failed (hAsked.cons hAsk) fun hLax => List.forall_mem_cons.mpr ⟨hFalsy, hFalsy' hLax⟩

-- ---------------------------------------------------------------------------
-- Where a choice stands
-- ---------------------------------------------------------------------------

namespace Config

variable {handler : Handler} {α β : Type} {w w' : World} {args : List Value} {rules : List Rule}
  {ds : List Deed}

section

variable {s : StateRef} {inputs : List Value} {strict : Bool} (hs : w.declares s)
  (hTargets : ∀ rule ∈ rules, w.declares rule.target)
include hs hTargets

end

-- ---------------------------------------------------------------------------
-- What a choice comes to
-- ---------------------------------------------------------------------------

variable {w₁ : World} {vs : List Value} {s : StateRef} {inputs : List Value} {strict : Bool}

end Config

-- ---------------------------------------------------------------------------
-- Switches
-- ---------------------------------------------------------------------------

/-- What a switch does when its choice has come to an end: it follows the rule, it reports that
there is none, or it fails. -/
def Run.settle (m : MachineRef) (s : StateRef) :
    Except Fault (Option Rule) → Run (Option StateRef)
  | .ok chosen => follow m s chosen
  | .error fault => ofOutcome (.error fault)

namespace Config

variable {handler : Handler} {w w' w₁ : World} {m : MachineRef} {s : StateRef} {inputs : List Value}
  {ds : List Deed}

end Config

end RuleMachine
