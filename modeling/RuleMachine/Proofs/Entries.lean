import Mathlib.Tactic.Set
import RuleMachine.Engine.Loop
import RuleMachine.Proofs.Lifecycle

/-!
# Where entries come from

Operations enter states in three ways: a start enters the first state, a jump the state it is
given, and a switch the target of a rule of the state that was current when it began. `World.Entry`
lists them, and here each operation is shown to make an entry of its kind.

* `Config.ComesToEntry`: an operation comes to an entry and ends as the entry does.
* `Config.entry_lifecycle`: whichever operation makes it, an entry goes by its plan.
-/

namespace RuleMachine

-- ---------------------------------------------------------------------------
-- What programs can answer
-- ---------------------------------------------------------------------------

namespace Program

/-- Whether every answer that a program could give, in whatever worlds and whatever functions say,
is of some kind. -/
def Answers {α : Type} (Q : α → Prop) : Program α → Prop
  | .ret a => Q a
  | .perform p next => ∀ w : World, (next ((p.effect w).1.mapError w.fault)).Answers Q
  | .call _ _ next => ∀ r, (next r).Answers Q
  | .loop _ next => ∀ b, (next b).Answers Q

variable {α β : Type} {P : α → Prop} {Q : β → Prop}

/-- In a sequence the second part answers under what the first one answers. -/
theorem Answers.bind {p : Program α} {k : α → Program β} (hp : p.Answers P)
    (hk : ∀ a, P a → (k a).Answers Q) : (p.bind k).Answers Q := by
  induction p with
  | ret a => exact hk a hp
  | perform op next ih => exact fun w => ih _ (hp w) hk
  | call f args next ih => exact fun r => ih r (hp r) hk
  | loop body next _ ih => exact fun b => ih b (hp b) hk

theorem Answers.mono {Q : α → Prop} {p : Program α} (hp : p.Answers P) (h : ∀ a, P a → Q a) :
    p.Answers Q := by
  rw [← bind_ret p]
  exact hp.bind h

/-- Every program answers with what holds of everything. -/
theorem answers_of_forall (h : ∀ a, P a) (p : Program α) : p.Answers P := by
  induction p with
  | ret a => exact h a
  | perform op next ih => exact fun w => ih _ h
  | call f args next ih => exact fun r => ih r h
  | loop body next _ ih => exact fun b => ih b h

/-- What an execution ends with is an answer of the program. -/
theorem Answers.after {p : Program α} (hp : p.Answers P) {handler : Handler} {w w' : World} {a : α}
    (h : ({ program := p, world := w } : Config α).Ends handler a w') : P a := by
  obtain ⟨n, hn⟩ := h
  -- what a program may answer is the same at each of its steps
  have hKeeps (c : Config α) (h : c.program.Answers P) (n : Nat) :
      (c.after .standard handler n).program.Answers P := by
    induction n generalizing c with
    | zero => exact h
    | succ n ih =>
      obtain ⟨p, w⟩ := c
      cases p with
      | ret a => exact h
      | perform op next => exact ih _ (h _)
      | call f args next =>
        have hCall := answers_of_forall (fun _ => trivial) (ExceptT.run (handler f args))
        exact ih _ (hCall.bind fun r _ => h r)
      -- one round of a loop answers with a value or goes round again
      | loop body next =>
        refine ih _ ((answers_of_forall (fun _ => trivial) body).bind fun r _ => ?_)
        cases r with
        | none => exact h
        | some b => exact h b
  have hEnd := hKeeps { program := p, world := w } hp n
  rw [hn] at hEnd
  exact hEnd

end Program

/-- Whether every answer that a program could give without failing is of some kind. -/
def Run.Answers {α : Type} (Q : α → Prop) (x : Run α) : Prop :=
  (ExceptT.run x).Answers fun
    | .ok a => Q a
    | .error _ => True

namespace Run

variable {α β : Type} {P : α → Prop} {Q : β → Prop}

/-- The same for a program that may fail: only values are passed on. -/
theorem Answers.bind {x : Run α} {f : α → Run β} (hx : x.Answers P)
    (hf : ∀ a, P a → (f a).Answers Q) : (x >>= f).Answers Q := by
  rw [Answers, run_bind]
  refine Program.Answers.bind hx fun r hr => ?_
  cases r with
  | ok a => exact hf a hr
  | error fault => trivial

theorem answers_pure {a : α} (h : P a) : (pure a : Run α).Answers P := h

/-- Every program that may fail answers with what holds of everything. -/
theorem answers_of_forall (h : ∀ a, P a) (x : Run α) : x.Answers P := by
  refine Program.answers_of_forall (fun r => ?_) (ExceptT.run x)
  cases r with
  | ok a => exact h a
  | error fault => trivial

/-- The same for programs that may fail. -/
theorem Answers.mono {Q : α → Prop} {x : Run α} (hx : x.Answers P) (h : ∀ a, P a → Q a) :
    x.Answers Q := by
  refine Program.Answers.mono hx fun r hr => ?_
  cases r with
  | ok a => exact h a hr
  | error fault => trivial

theorem answers_fail (cause : Cause) : (fail cause : Run α).Answers P := fun _ => trivial

/-- What comes first may answer anything. -/
theorem answers_bind (x : Run α) {f : α → Run β} (hf : ∀ a, (f a).Answers Q) :
    (x >>= f).Answers Q :=
  (answers_of_forall (fun _ => trivial) x).bind fun a _ => hf a

/-- The first rule that holds is one of those to be asked. -/
theorem firstMatch_answers (args : List Value) (rules : List Rule) :
    (firstMatch args rules).Answers fun chosen => ∀ rule ∈ chosen, rule ∈ rules := by
  induction rules with
  | nil => exact answers_pure (by simp)
  | cons rule rest ih =>
    refine answers_bind (ask rule.predicate args) fun answer => ?_
    split
    · exact answers_pure (by simp)
    · exact ih.mono fun chosen h rule hRule => List.mem_cons_of_mem _ (h rule hRule)

/-- The rules that hold are some of those to be asked. -/
theorem matching_answers (args : List Value) (rules : List Rule) :
    (matching args rules).Answers fun found => found ⊆ rules := by
  induction rules with
  | nil => exact answers_pure (List.Subset.refl [])
  | cons rule rest ih =>
    refine answers_bind (ask rule.predicate args) fun answer => ?_
    refine ih.bind fun others hOthers => answers_pure ?_
    -- the rule is kept or it is left out
    split
    · exact List.cons_subset_cons rule hOthers
    · exact List.subset_cons_of_subset rule hOthers

/-- The rule to follow is one of those to choose from. -/
theorem choose_answers (s : StateRef) (rules : List Rule) (strict : Bool) (inputs : List Value) :
    (choose s rules strict inputs).Answers fun chosen => ∀ rule ∈ chosen, rule ∈ rules := by
  unfold choose
  split
  · refine (matching_answers _ rules).bind fun found hFound => ?_
    -- one rule that fires is chosen; none, or more than one, is no choice
    match found with
    | [] => exact answers_pure (by simp)
    | [rule] => exact answers_pure (by simpa using hFound)
    | _ :: _ :: _ => exact answers_bind _ fun name => answers_bind _ fun names => answers_fail _
  · exact firstMatch_answers _ rules

/-- What follows an attempt to switch: without a state entered it fails, and names the state that is
current by then. -/
def insist (m : MachineRef) : Option StateRef → Run StateRef
  | some s => return s
  | none => do
    let s ← currentState m
    fail (.noTransition (← look (.name s)))

theorem switch_eq (m : MachineRef) (inputs : List Value) :
    switch m inputs = trySwitch m inputs >>= insist m := rfl

/-- What a switch does once it has chosen: it follows the rule, or reports that there is none. -/
def follow (m : MachineRef) (s : StateRef) : Option Rule → Run (Option StateRef)
  | none => do
    keep (.noTransition m (← look (.name s)))
    return none
  | some rule => do
    keep (.switching m (← look (.name s)) (← look (.name rule.target)))
    return some (← enter rule.target rule.actions)

/-- A try reads the current state, its rules and the mode, chooses a rule and follows it. -/
theorem trySwitch_eq (m : MachineRef) (inputs : List Value) :
    trySwitch m inputs = (do
      let s ← currentState m
      let rules ← look (.rules s)
      let strict ← look (.strict m)
      choose s rules strict inputs >>= follow m s) := rfl

/-- Reads the mode of a machine and chooses a rule accordingly. -/
def select (m : MachineRef) (s : StateRef) (rules : List Rule) (inputs : List Value) :
    Run (Option Rule) := do
  let strict ← look (.strict m)
  choose s rules strict inputs

/-- A try in which the choice is made under the mode that holds then. -/
theorem trySwitch_select (m : MachineRef) (inputs : List Value) :
    trySwitch m inputs = (do
      let s ← currentState m
      let rules ← look (.rules s)
      select m s rules inputs >>= follow m s) := by
  rw [trySwitch_eq]
  simp only [select, bind_assoc]

end Run

/-- Asking the predicate of one of several rules. -/
inductive Asks (args : List Value) (rules : List Rule) : Act → Prop
  | ask {rule : Rule} {f : FunctionName} (hRule : rule ∈ rules)
    (hPredicate : rule.predicate = .function f) : Asks args rules (.call f args)

theorem Asks.mono {args : List Value} {rules rules' : List Rule} {a : Act}
    (h : Asks args rules a) (hRules : rules ⊆ rules') : Asks args rules' a := by
  cases h with
  | ask hRule hPredicate => exact .ask (hRules hRule) hPredicate

-- ---------------------------------------------------------------------------
-- What operations enter
-- ---------------------------------------------------------------------------

theorem standard_look {α : Type} {q : Query α} {w : World} {a : α} (h : q.answer w = .ok a) :
    Semantics.standard α (.look q) w = (.ok a, w) := by
  rw [Semantics.standard, Primitive.effect, h]

/-- Ending an entry with the state in an option. -/
theorem Run.run_some (x : Run StateRef) :
    ExceptT.run (do return some (← x)) = (ExceptT.run x).bind fun r => .ret (r.map some) := by
  rw [run_bind]
  refine congrArg (ExceptT.run x).bind (funext fun r => ?_)
  cases r <;> rfl

namespace Config

variable {handler : Handler} {w w₁ : World}

/-- Consistency is kept along an execution. -/
theorem Leads.consistent {α : Type} {c c' : Config α} (h : c.Leads handler c')
    (hConsistent : ∀ ref, (c.world.machine ref).Consistent ref) (ref : MachineRef) :
    (c'.world.machine ref).Consistent ref := by
  obtain ⟨n, rfl⟩ := h
  have hAll : ∀ ref, ((c.after .standard handler n).world.machine ref).Consistent ref :=
    Config.invariant (I := fun w => ∀ ref, (w.machine ref).Consistent ref) (fun _ _ _ h => h)
      (fun _ p w h ref => (p.move w ref).consistent (h ref)) hConsistent n
  exact hAll ref

/-- Whether an operation that begins in a world comes to the entry of a state, which begins in
another world and goes by its plan there, and ends as the entry does. -/
structure ComesToEntry (handler : Handler) {β : Type} (x : Run β) (w : World)
    (answer : StateRef → β) (w₁ : World) (target : StateRef) (actions : List FunctionName) :
    Prop where
  entry : w₁.Entry target actions
  leads : (begin x w).Leads handler
    ((begin (Run.enter target actions) w₁).andThen fun r => .ret (r.map answer))
  byPlan : w₁.EntersByPlan handler target actions

/-- Starting a machine is entering its first state. -/
theorem comesToEntry_start {m : MachineRef} {first : StateRef} {rest : List StateRef}
    (hConsistent : ∀ ref, (w.machine ref).Consistent ref)
    (h : (Query.states m).answer w = .ok (first :: rest)) :
    ComesToEntry handler (Run.start m) w some w first [] where
  entry := .start h
  leads := by
    refine .of_next ?_
    rw [Run.start, Run.look, next_act (standard_look h), andThen, ← Run.run_some]
  byPlan := (World.Entry.start h).byPlan hConsistent handler

/-- Jumping to a state is entering it. -/
theorem comesToEntry_setState {m : MachineRef} {v : Value} {target : StateRef}
    (hConsistent : ∀ ref, (w.machine ref).Consistent ref)
    (h : (Query.resolve m v).answer w = .ok (some target)) :
    ComesToEntry handler (Run.setState m v) w id w target [] where
  entry := .jump h
  leads := by
    refine .of_next ?_
    -- the state asked for is handed on unchanged, so nothing comes after the entry
    have hSame : (fun r : Except Fault StateRef => Program.ret (r.map id)) = .ret := by
      funext r
      cases r <;> rfl
    rw [Run.setState, Run.resolve, Run.look, bind_assoc, next_act (standard_look h), andThen, hSame,
      Program.bind_ret]
    rfl
  byPlan := (World.Entry.jump h).byPlan hConsistent handler

/-- Switching, once a rule has been chosen, is entering its target. The rule is one of those of the
state that was current at the beginning. -/
theorem comesToEntry_trySwitch {m : MachineRef} {s : StateRef} {inputs : List Value} {rule : Rule}
    (hConsistent : ∀ ref, (w.machine ref).Consistent ref) (hCurrent : w.current? m = some s)
    (hChosen : (begin (Run.choose s (w.state s).rules (w.machine m).strict inputs) w).Ends handler
      (.ok (some rule)) w₁) :
    ComesToEntry handler (Run.trySwitch m inputs) w some
      ((Bookkeeping.switching m (w₁.state s).name (w₁.state rule.target).name).apply w₁)
      rule.target rule.actions := by
  set w₂ := (Bookkeeping.switching m (w₁.state s).name (w₁.state rule.target).name).apply w₁
  have hMachine (ref : MachineRef) : w₂.machine ref = w₁.machine ref :=
    Bookkeeping.machine_apply _ w₁ ref
  have hConsistent₂ (ref : MachineRef) : (w₂.machine ref).Consistent ref := by
    rw [hMachine]
    exact Leads.consistent hChosen hConsistent ref
  have hEntry : w₂.Entry rule.target rule.actions := by
    have hSame : w.SameTables w₂ := by
      intro ref hStates
      rw [hMachine]
      exact hChosen.sameTables ref hStates
    obtain ⟨-, hs⟩ := (hConsistent m).declares_current hCurrent
    refine .rule (hSame.declares hs) ?_
    rw [hSame.rules hs]
    exact (Run.choose_answers _ _ _ inputs).after hChosen rule rfl
  refine ⟨hEntry, ?_, hEntry.byPlan hConsistent₂ handler⟩
  -- the current state, its rules and the mode are looked up, and a rule is chosen
  have hCurrent' : (Query.current m).answer w = .ok (some s) := by rw [Query.answer, hCurrent]
  simp only [Run.trySwitch, Run.currentState, bind_assoc]
  refine (Leads.of_next (next_act (standard_look hCurrent') _)).trans ?_
  refine (Leads.of_next (next_act (standard_look rfl) _)).trans ?_
  refine (Leads.of_next (next_act (standard_look rfl) _)).trans ?_
  refine (hChosen.bind _).trans ?_
  -- the switch is logged by the names of the two states, and the target is entered
  refine (Leads.of_next (next_act (standard_look rfl) _)).trans ?_
  refine (Leads.of_next (next_act (standard_look rfl) _)).trans ?_
  refine (Leads.of_next (next_act rfl _)).trans ?_
  rw [Config.andThen, ← Run.run_some]
  exact .refl _

/-- A switch that must not fail to find a rule comes to the same entry. -/
theorem ComesToEntry.switch {m : MachineRef} {inputs : List Value} {target : StateRef}
    {actions : List FunctionName}
    (h : ComesToEntry handler (Run.trySwitch m inputs) w some w₁ target actions) :
    ComesToEntry handler (Run.switch m inputs) w id w₁ target actions where
  entry := h.entry
  leads := by
    rw [begin, Run.switch_eq, Run.run_bind]
    refine (h.leads.andThen _).trans ?_
    rw [andThen, andThen, Program.bind_assoc, andThen]
    -- a state that was entered is kept as it is, and so is a failure
    refine ⟨0, congrArg (Config.mk · w₁) (congrArg (Program.bind _) (funext fun r => ?_))⟩
    cases r <;> rfl
  byPlan := h.byPlan

/-- How states are entered in a world. -/
structure EntersByPlan (handler : Handler) (w : World) : Prop where
  /-- Every entry goes by its plan. -/
  entry : ∀ target actions, w.Entry target actions → w.EntersByPlan handler target actions
  /-- A start comes to the entry of the first state. -/
  start : ∀ m first rest, (Query.states m).answer w = .ok (first :: rest) →
    ComesToEntry handler (Run.start m) w some w first []
  /-- A jump comes to the entry of the state that it is given. -/
  setState : ∀ m v target, (Query.resolve m v).answer w = .ok (some target) →
    ComesToEntry handler (Run.setState m v) w id w target []
  /-- A switch, tried or not, that has chosen one of the rules of the current state comes to the
  entry of its target, once it has logged that it does so. -/
  switch : ∀ m s inputs rule w₁, w.current? m = some s →
    (begin (Run.choose s (w.state s).rules (w.machine m).strict inputs) w).Ends handler
      (.ok (some rule)) w₁ →
    let w₂ := (Bookkeeping.switching m (w₁.state s).name (w₁.state rule.target).name).apply w₁
    ComesToEntry handler (Run.trySwitch m inputs) w some w₂ rule.target rule.actions ∧
      ComesToEntry handler (Run.switch m inputs) w id w₂ rule.target rule.actions

/-- **Every entry goes by its plan, up to the first failure,** in every world that an execution
comes to and whichever operation makes the entry. Each moment of an entry is one of its own or one
during a call it made, and what the entry does itself is as `Lifecycle` says. -/
theorem entry_lifecycle {α : Type} (handler : Handler) (p : Program α) (n : Nat) :
    EntersByPlan handler ((start p).after .standard handler n).world := by
  have hConsistent (ref : MachineRef) := consistent handler p n ref
  exact
    { entry := fun _ _ hEntry => hEntry.byPlan hConsistent handler
      start := fun _ _ _ h => comesToEntry_start hConsistent h
      setState := fun _ _ _ h => comesToEntry_setState hConsistent h
      switch := fun _ _ _ _ _ hCurrent hChosen =>
        have hTried := comesToEntry_trySwitch hConsistent hCurrent hChosen
        ⟨hTried, hTried.switch⟩ }

/-- Two rooms. Leaving the first is announced, and the second is entered with an accident. -/
def rooms : Value :=
  .map
    [(.text "hall", .map [(.text "on_exit", .function "announce")]),
      (.text "attic",
        .map [(.text "on_enter", .function "stumble"), (.text "do", .function "rest")])]

/-- The accident. -/
def household : Handler := fun f _ =>
  if f = "stumble" then Run.fail (.raised .runtime "ouch") else return .null

/-- Enters the first room. -/
def inTheHall : Run StateRef := do
  let m ← Run.build rooms none
  Run.setState m (.text "hall")

/-- Entering the second room from the first goes by the plan. -/
theorem entry_lifecycle_attic :
    let hall : StateRef := { machine := 0, index := 0 }
    let attic : StateRef := { machine := 0, index := 1 }
    let w := ((start (ExceptT.run inTheHall)).after .standard household 10).world
    w.Entry attic [] ∧ ∀ ds c', (begin (Run.enter attic []) w).Did household ds c' →
      ds.map Deed.act ++ c'.program.pending <+:
        [.call "announce" [.state hall], .perform (.commit attic),
          .call "stumble" [.state attic], .call "rest" [.state attic]] := by
  intro hall attic w
  have hEntry : w.Entry attic [] := .jump (m := 0) (v := .text "attic") rfl
  refine ⟨hEntry, fun ds c' hDid => ?_⟩
  have hByPlan := (entry_lifecycle household (ExceptT.run inTheHall) 10).entry attic [] hEntry
  exact (hByPlan.lifecycle ds c' hDid).order

end Config

end RuleMachine
