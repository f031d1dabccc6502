import RuleMachine.Engine.Build
import RuleMachine.Engine.Slots
import RuleMachine.Proofs.Correspondence.Rules

/-!
# The engine corresponds

Whatever the engine does with values, it does alike with renamed ones, and it does it with known
ones only.

* `Correspondence.Closed.choose`, `Correspondence.Closed.enter`: choosing a rule and entering a
  state, with what they do stated one by one.
* `Correspondence.Lawful.run`, `Correspondence.Lawful.advance`: runs and steps.
* `Correspondence.Lawful.build`: building machines.
-/

namespace RuleMachine

namespace Correspondence

variable {R : Correspondence}

/-- Whatever is in a list is known if its items are. -/
theorem within_cons {known : Value → Prop} {v : Value} {rest : List Value} (hv : v.Within known)
    (h : ∀ w ∈ rest, w.Within known) : ∀ w ∈ v :: rest, w.Within known :=
  List.forall_mem_cons.mpr ⟨hv, h⟩

theorem within_one {known : Value → Prop} {v : Value} (hv : v.Within known) :
    ∀ w ∈ [v], w.Within known :=
  List.forall_mem_singleton.mpr hv

namespace Closed

variable (hR : R.Closed)
include hR

-- ---------------------------------------------------------------------------
-- Asking and choosing
-- ---------------------------------------------------------------------------

section

variable {args : List Value} {rules : List Rule} (hArgs : ∀ v ∈ args, v.Within R.known)
include hArgs

/-- A predicate is called with renamed arguments, or it is a constant, which is the answer. -/
theorem ask {predicate : Predicate} (h : predicate.Within R.known)
    (hCall : ∀ f, predicate = .function f → R.allows (.call f args)) :
    R.Holds .value (Run.ask predicate args)
      (Run.ask (predicate.rename R.ρ) (args.map (Value.rename R.ρ))) := by
  cases predicate with
  | function f => exact hR.call (hCall f rfl) hArgs
  | constant v => exact hR.pure h

/-- The rules are asked one after the other, up to the first that applies. -/
theorem firstMatch (h : ∀ rule ∈ rules, rule.Within R.known)
    (hAsks : ∀ a, Asks args rules a → R.allows a) :
    R.Holds (.option .rule) (Run.firstMatch args rules)
      (Run.firstMatch (args.map (Value.rename R.ρ)) (rules.map (Rule.rename R.ρ))) := by
  -- once a rule applies the rest is not asked, so the cases are those of the answer
  induction rules with
  | nil => exact hR.pure (fun _ h => by cases h)
  | cons rule rest ih =>
    obtain ⟨hFirst, hRest⟩ := List.forall_mem_cons.mp h
    refine hR.bind (hR.ask hArgs hFirst.predicate fun f hf =>
      hAsks _ (.ask List.mem_cons_self hf)) fun answer _ => ?_
    show R.Holds _ _ (if (answer.rename R.ρ).truthy then _ else _)
    rw [Value.truthy_rename]
    split
    · exact hR.pure fun _ h => Option.some.inj h ▸ hFirst
    · exact ih hRest fun a ha => hAsks a (ha.mono (List.subset_cons_self rule rest))

/-- All rules are asked, whether one applies or not. -/
theorem matching (h : ∀ rule ∈ rules, rule.Within R.known)
    (hAsks : ∀ a, Asks args rules a → R.allows a) :
    R.Holds (.list .rule) (Run.matching args rules)
      (Run.matching (args.map (Value.rename R.ρ)) (rules.map (Rule.rename R.ρ))) := by
  induction rules with
  | nil => exact hR.pure (List.forall_mem_nil _)
  | cons rule rest ih =>
    obtain ⟨hFirst, hRest⟩ := List.forall_mem_cons.mp h
    refine hR.bind (hR.ask hArgs hFirst.predicate fun f hf =>
      hAsks _ (.ask List.mem_cons_self hf)) fun answer _ => ?_
    refine hR.bind (ih hRest fun a ha => hAsks a (ha.mono (List.subset_cons_self rule rest)))
      fun others hOthers => ?_
    have hTruthy : ((Contents.value.rename R.ρ answer : Value)).truthy = answer.truthy :=
      Value.truthy_rename R.ρ answer
    rw [hTruthy]
    split
    · exact hR.pure (List.forall_mem_cons.mpr ⟨hFirst, hOthers⟩)
    · exact hR.pure hOthers

end

/-- The names of several states are looked up in order. -/
theorem namesOf {states : List StateRef} (h : ∀ s ∈ states, R.known (.state s)) :
    R.Holds (.list .value) (Run.namesOf states)
      (Run.namesOf (states.map (StateRef.rename R.ρ))) := by
  induction states with
  | nil => exact hR.pure (List.forall_mem_nil _)
  | cons s rest ih =>
    obtain ⟨hFirst, hRest⟩ := List.forall_mem_cons.mp h
    refine hR.bind (hR.look (q := .name s) hFirst rfl) fun name hName => ?_
    refine hR.bind (ih hRest) fun others hOthers => ?_
    exact hR.pure (within_cons hName hOthers)

/-- **Rules are chosen alike.** -/
theorem choose {s : StateRef} {rules : List Rule} {inputs : List Value} (hs : R.known (.state s))
    (h : ∀ rule ∈ rules, rule.Within R.known) (hInputs : ∀ v ∈ inputs, v.Within R.known)
    (hAsks : ∀ a, Asks (.state s :: inputs) rules a → R.allows a)
    (hFail : ∀ name candidates,
      R.allows (.perform (.fail (.ambiguous name candidates) : Primitive (Option Rule))))
    (strict : Bool) :
    R.Holds (.option .rule) (Run.choose s rules strict inputs)
      (Run.choose (s.rename R.ρ) (rules.map (Rule.rename R.ρ)) strict
        (inputs.map (Value.rename R.ρ))) := by
  have hArgs : ∀ v ∈ Value.state s :: inputs, v.Within R.known :=
    within_cons (Value.within_state.mpr hs) hInputs
  cases strict with
  | false => exact hR.firstMatch hArgs h hAsks
  | true =>
    refine hR.bind (hR.matching hArgs h hAsks) fun found hFound => ?_
    -- the message of a failure names the targets of all rules that apply
    have hTargets : (found.map (Rule.rename R.ρ)).map Rule.target =
        (found.map Rule.target).map (StateRef.rename R.ρ) := by
      rw [List.map_map, List.map_map]
      rfl
    have hKnown : ∀ t ∈ found.map Rule.target, R.known (.state t) := by
      intro t ht
      obtain ⟨rule, hRule, rfl⟩ := List.mem_map.mp ht
      exact (hFound rule hRule).target
    have hNames := hR.namesOf hKnown
    rw [← hTargets] at hNames
    match found with
    | [] => exact hR.pure (fun _ h => by cases h)
    | [rule] => exact hR.pure fun _ h => Option.some.inj h ▸ hFound rule List.mem_cons_self
    | first :: second :: rest =>
      refine hR.bind (hR.look (q := .name s) hs rfl) fun name _ => ?_
      refine hR.bind hNames fun candidates _ => ?_
      exact hR.fail (.ambiguous name candidates) (hFail name candidates)

-- ---------------------------------------------------------------------------
-- Entering states
-- ---------------------------------------------------------------------------

section

variable (hCall : ∀ f args, R.allows (.call f args))
include hCall

/-- Actions are called one after the other, all with the same arguments. -/
theorem runActions (functions : List FunctionName) {args : List Value}
    (h : ∀ v ∈ args, v.Within R.known) :
    R.Holds .plain (Run.runActions functions args)
      (Run.runActions functions (args.map (Value.rename R.ρ))) := by
  induction functions with
  | nil => exact hR.pure trivial
  | cons f rest ih => exact hR.bind (hR.call (hCall f args) h) fun _ _ => ih

/-- The actions that a state has for an occasion are those that the renamed one has. -/
theorem runSlot {s : StateRef} (hs : R.known (.state s)) (slot : ActionSlot) :
    R.Holds .plain (Run.runSlot s slot) (Run.runSlot (s.rename R.ρ) slot) := by
  refine hR.bind (hR.look (q := .actions s slot) hs rfl) fun functions _ => ?_
  exact hR.runActions hCall functions (within_one (Value.within_state.mpr hs))

/-- Without a current state there is none to leave. -/
theorem leave {source : Option StateRef} (h : ∀ s ∈ source, R.known (.state s)) :
    R.Holds .plain (Run.leave source) (Run.leave (source.map (StateRef.rename R.ρ))) := by
  cases source with
  | some s => exact hR.runSlot hCall (h s rfl) .onExit
  | none => exact hR.pure trivial

/-- **States are entered alike.** -/
theorem enter {target : StateRef} (h : R.known (.state target))
    (hCommit : R.allows (.perform (.commit target))) (actions : List FunctionName) :
    R.Holds .state (Run.enter target actions) (Run.enter (target.rename R.ρ) actions) := by
  have hTarget : (Value.state target).Within R.known := Value.within_state.mpr h
  refine hR.bind (hR.look (q := .current target.machine) ((hR.home target).mp h) rfl)
    fun source hSource => ?_
  refine hR.bind (hR.leave hCall hSource) fun _ _ => ?_
  -- the actions of a rule are told where the machine comes from, which may be nowhere
  have hWithin : ∀ v ∈ [(source.map Value.state).getD .null, .state target],
      v.Within R.known := by
    refine within_cons ?_ (within_one hTarget)
    cases source with
    | none => exact Value.within_null
    | some s => exact Value.within_state.mpr (hSource s rfl)
  have hActions := hR.runActions hCall actions hWithin
  have hArgs : [(source.map Value.state).getD .null, .state target].map (Value.rename R.ρ) =
      [((source.map (StateRef.rename R.ρ)).map Value.state).getD .null,
        .state (target.rename R.ρ)] := by
    cases source <;> rfl
  rw [hArgs] at hActions
  refine hR.bind hActions fun _ _ => ?_
  refine hR.bind (hR.act (p := .commit target) rfl rfl hCommit h) fun _ _ => ?_
  refine hR.bind (hR.runSlot hCall h .onEnter) fun _ _ => ?_
  exact hR.bind (hR.runSlot hCall h .body) fun _ _ => hR.pure h

end

/-- The current state, where there has to be one. -/
theorem currentState {m : MachineRef} (h : R.known (.machine m))
    (hFail : R.allows (.perform (.fail .notStarted : Primitive StateRef))) :
    R.Holds .state (Run.currentState m) (Run.currentState (R.ρ .machine m)) := by
  refine hR.bind (hR.look (q := .current m) h rfl) fun s hs => ?_
  cases s with
  | some s => exact hR.pure (hs s rfl)
  | none => exact hR.fail .notStarted hFail

/-- What a switch must find corresponds, and so does the failure to find it. -/
theorem insist {m : MachineRef} (h : R.known (.machine m))
    (hNotStarted : R.allows (.perform (.fail .notStarted : Primitive StateRef)))
    (hNoTransition : ∀ name, R.allows (.perform (.fail (.noTransition name) : Primitive StateRef)))
    {found : Option StateRef} (hFound : ∀ s ∈ found, R.known (.state s)) :
    R.Holds .state (Run.insist m found)
      (Run.insist (R.ρ .machine m) (found.map (StateRef.rename R.ρ))) := by
  cases found with
  | some s => exact hR.pure (hFound s rfl)
  | none =>
    refine hR.bind (hR.currentState h hNotStarted) fun s hs => ?_
    refine hR.bind (hR.look (q := .name s) hs rfl) fun name _ => ?_
    exact hR.fail (.noTransition name) (hNoTransition name)

end Closed

-- ---------------------------------------------------------------------------
-- All of the engine
-- ---------------------------------------------------------------------------

namespace Lawful

variable (hR : R.Lawful)
include hR

/-- Calling a function is about no mode, so all of them may be called. -/
theorem calls (f : FunctionName) (args : List Value) : R.allows (.call f args) :=
  hR.allowed _ rfl

theorem ask' {predicate : Predicate} {args : List Value} (h : predicate.Within R.known)
    (hArgs : ∀ v ∈ args, v.Within R.known) :
    R.Holds .value (Run.ask predicate args)
      (Run.ask (predicate.rename R.ρ) (args.map (Value.rename R.ρ))) :=
  hR.ask hArgs h fun f _ => hR.calls f args

theorem enter' {target : StateRef} (h : R.known (.state target)) (actions : List FunctionName) :
    R.Holds .state (Run.enter target actions) (Run.enter (target.rename R.ρ) actions) :=
  hR.enter hR.calls h (hR.allowed _ rfl) actions

theorem choose' {s : StateRef} {rules : List Rule} {inputs : List Value} (hs : R.known (.state s))
    (h : ∀ rule ∈ rules, rule.Within R.known) (hInputs : ∀ v ∈ inputs, v.Within R.known)
    (strict : Bool) :
    R.Holds (.option .rule) (Run.choose s rules strict inputs)
      (Run.choose (s.rename R.ρ) (rules.map (Rule.rename R.ρ)) strict
        (inputs.map (Value.rename R.ρ))) := by
  refine hR.choose hs h hInputs (fun a ha => ?_) (fun _ _ => hR.allowed _ rfl) strict
  cases ha with
  | ask _ _ => exact hR.calls _ _

/-- A state is reported by its name, and everything else as it is. -/
theorem reportedName {v : Value} (h : v.Within R.known) :
    R.Holds .value (Run.reportedName v) (Run.reportedName (v.rename R.ρ)) := by
  cases v with
  | state s => exact hR.look (q := .name s) (Value.within_state.mp h) rfl
  | _ => exact hR.pure h

section

variable {m : MachineRef} (hm : R.known (.machine m))
include hm

/-- What stands for a state is looked up, or it is reported if it stands for none. -/
theorem resolve {v : Value} (h : v.Within R.known) :
    R.Holds .state (Run.resolve m v) (Run.resolve (R.ρ .machine m) (v.rename R.ρ)) := by
  refine hR.bind (hR.look (q := .resolve m v) ⟨hm, h⟩ rfl) fun found hFound => ?_
  cases found with
  | some s => exact hR.pure (hFound s rfl)
  | none =>
    exact hR.bind (hR.reportedName h) fun name _ => hR.fail' (.unknownState name none)

/-- Several states are looked up in order, and the first that is unknown is reported. -/
theorem resolveAll {vs : List Value} (h : ∀ v ∈ vs, v.Within R.known) :
    R.Holds (.list .state) (Run.resolveAll m vs)
      (Run.resolveAll (R.ρ .machine m) (vs.map (Value.rename R.ρ))) := by
  induction vs with
  | nil => exact hR.pure (List.forall_mem_nil _)
  | cons v rest ih =>
    obtain ⟨hFirst, hRest⟩ := List.forall_mem_cons.mp h
    refine hR.bind (hR.resolve hm hFirst) fun s hs => hR.bind (ih hRest) fun others hOthers => ?_
    exact hR.pure (List.forall_mem_cons.mpr ⟨hs, hOthers⟩)

/-- The first state of the table is entered, if there is one. -/
theorem start : R.Holds (.option .state) (Run.start m) (Run.start (R.ρ .machine m)) := by
  refine hR.bind (hR.look (q := .states m) hm rfl) fun states hStates => ?_
  cases states with
  | nil => exact hR.pure (fun _ h => by cases h)
  | cons first rest =>
    refine hR.bind (hR.enter' (hStates first List.mem_cons_self) []) fun s hs => ?_
    exact hR.pure fun _ h => Option.some.inj h ▸ hs

/-- A state that is looked up is entered without actions of a rule. -/
theorem setState {v : Value} (h : v.Within R.known) :
    R.Holds .state (Run.setState m v) (Run.setState (R.ρ .machine m) (v.rename R.ρ)) :=
  hR.bind (hR.resolve hm h) fun _ ht => hR.enter' ht []

/-- A change of an option or of the notes. -/
theorem adjust {a : Adjustment} (h : a.Within R.known)
    (hMode : (Primitive.adjust m a).isAboutMode = false) :
    R.Holds .plain (Run.adjust m a) (Run.adjust (R.ρ .machine m) (a.rename R.ρ)) :=
  hR.does (.adjust m a) ⟨hm, h⟩ hMode

/-- The predicate for being done is a function or a constant. -/
theorem setDone {done : Value} (h : done.Within R.known) :
    R.Holds .plain (Run.setDone m done)
      (Run.setDone (R.ρ .machine m) (done.rename R.ρ)) := by
  unfold Run.setDone
  rw [Predicate.ofValue_rename]
  exact hR.adjust hm (Predicate.within_ofValue h) rfl

/-- The options are set in order. Starting the machine comes last. -/
theorem configure (hStrict : ∀ b, R.allows (.perform (.adjust m (.strict b)))) {o : Options}
    (h : o.done.Within R.known) :
    R.Holds .plain (Run.configure m o) (Run.configure (R.ρ .machine m) (o.rename R.ρ)) := by
  refine hR.bind (hR.act (p := .adjust m (.strict o.strict)) rfl rfl (hStrict _) ⟨hm, trivial⟩)
    fun _ _ => ?_
  refine hR.bind (hR.setDone hm h) fun _ _ => ?_
  show R.Holds _ (if o.start then _ else _) (if o.start then _ else _)
  split
  · exact hR.bind (hR.start hm) fun _ _ => hR.pure trivial
  · exact hR.pure trivial

end

/-- **Machines are built alike.** -/
theorem build {table : Value} (h : table.Within R.known) {options : Option Options}
    (hOptions : ∀ o ∈ options, o.done.Within R.known) :
    R.Holds .machine (Run.build table options)
      (Run.build (table.rename R.ρ) (options.map (Options.rename R.ρ))) := by
  refine hR.construct h fun m hm hStrict => ?_
  cases options with
  | some o =>
    exact hR.bind (hR.keeping hm (hR.configure hm hStrict (hOptions o rfl))) fun _ _ => hR.pure hm
  | none => exact hR.pure hm

-- ---------------------------------------------------------------------------
-- Switching
-- ---------------------------------------------------------------------------

/-- The chosen rule is followed, or it is recorded that there is none. -/
theorem follow {m : MachineRef} {s : StateRef} (hs : R.known (.state s)) {chosen : Option Rule}
    (h : ∀ rule ∈ chosen, rule.Within R.known) :
    R.Holds (.option .state) (Run.follow m s chosen)
      (Run.follow (R.ρ .machine m) (s.rename R.ρ) (chosen.map (Rule.rename R.ρ))) := by
  cases chosen with
  | none =>
    refine hR.bind (hR.look (q := .name s) hs rfl) fun name _ => ?_
    refine hR.bind (hR.keep (b := .noTransition m name) trivial rfl) fun _ _ => ?_
    exact hR.pure fun _ h => by cases h
  | some rule =>
    have hTarget : R.known (.state rule.target) := (h rule rfl).target
    refine hR.bind (hR.look (q := .name s) hs rfl) fun source _ => ?_
    refine hR.bind (hR.look (q := .name rule.target) hTarget rfl) fun target _ => ?_
    refine hR.bind (hR.keep (b := .switching m source target) trivial rfl) fun _ _ => ?_
    refine hR.bind (hR.enter' hTarget rule.actions) fun s hs => ?_
    exact hR.pure fun _ h => Option.some.inj h ▸ hs

section

variable {m : MachineRef} (hm : R.known (.machine m))
include hm

section

variable {inputs : List Value} (h : ∀ v ∈ inputs, v.Within R.known)
include h

/-- **Switches correspond.** The mode is read for the choice of a rule and for nothing else. -/
theorem trySwitch :
    R.Holds (.option .state) (Run.trySwitch m inputs)
      (Run.trySwitch (R.ρ .machine m) (inputs.map (Value.rename R.ρ))) := by
  rw [Run.trySwitch_select, Run.trySwitch_select]
  refine hR.bind (hR.currentState hm (hR.allowed _ rfl)) fun s hs => ?_
  refine hR.bind (hR.look (q := .rules s) hs rfl) fun rules hRules => ?_
  -- the mode is read here, and where it may not be read the choice as a whole corresponds
  have hSelect : R.Holds (.option .rule) (Run.select m s rules inputs)
      (Run.select (R.ρ .machine m) (s.rename R.ρ) (rules.map (Rule.rename R.ρ))
        (inputs.map (Value.rename R.ρ))) := by
    by_cases hMode : R.allows (.perform (.look (.strict m)))
    · exact hR.bind (hR.act (p := .look (.strict m)) rfl rfl hMode hm) fun strict _ =>
        hR.choose' hs hRules h strict
    · exact hR.select hMode
  exact hR.bind hSelect fun chosen hChosen => hR.follow hs hChosen

/-- A switch that must find a rule is one that may, with a failure added. -/
theorem switch :
    R.Holds .state (Run.switch m inputs)
      (Run.switch (R.ρ .machine m) (inputs.map (Value.rename R.ρ))) := by
  rw [Run.switch_eq, Run.switch_eq]
  exact hR.bind (hR.trySwitch hm h) fun found hFound =>
    hR.insist hm (hR.allowed _ rfl) (fun _ => hR.allowed _ rfl) hFound

end

-- ---------------------------------------------------------------------------
-- Running
-- ---------------------------------------------------------------------------

/-- A machine is asked whether it is done with nothing but itself. -/
theorem done : R.Holds .value (Run.done m) (Run.done (R.ρ .machine m)) :=
  hR.bind (hR.look (q := .done m) hm rfl) fun _ hPredicate =>
    hR.ask' hPredicate (within_one (Value.within_machine.mpr hm))

section

variable {inputs : List Value} (h : ∀ v ∈ inputs, v.Within R.known)
include h

/-- A step asks first whether the machine is done, and switches only if it is not. -/
theorem nextStep :
    R.Holds (.option .state) (Run.nextStep m inputs)
      (Run.nextStep (R.ρ .machine m) (inputs.map (Value.rename R.ρ))) := by
  refine hR.bind (hR.done hm) fun answer _ => ?_
  show R.Holds _ _ (if (answer.rename R.ρ).truthy then _ else _)
  rw [Value.truthy_rename]
  split
  · exact hR.pure fun _ h => by cases h
  · exact hR.bind (hR.switch hm h) fun s hs => hR.pure fun _ h => Option.some.inj h ▸ hs

/-- The first step starts a machine that has no current state. -/
theorem firstStep :
    R.Holds (.option .state) (Run.firstStep m inputs)
      (Run.firstStep (R.ρ .machine m) (inputs.map (Value.rename R.ρ))) := by
  refine hR.bind (hR.look (q := .current m) hm rfl) fun current _ => ?_
  cases current with
  | some s => exact hR.nextStep hm h
  | none =>
    refine hR.bind (hR.start hm) fun started hStarted => ?_
    cases started with
    | some s => exact hR.pure hStarted
    | none => exact hR.nextStep hm h

/-- All further steps are taken in a loop. -/
theorem finish :
    R.Holds .plain (Run.finish m inputs)
      (Run.finish (R.ρ .machine m) (inputs.map (Value.rename R.ρ))) := by
  refine hR.repeatUntil (hR.bind (hR.nextStep hm h) fun found _ => ?_)
  cases found with
  | some s => exact hR.pure fun _ h => by cases h
  | none => exact hR.pure fun _ _ => trivial

/-- **Runs correspond.** -/
theorem run :
    R.Holds (.option .state) (Run.run m inputs)
      (Run.run (R.ρ .machine m) (inputs.map (Value.rename R.ρ))) := by
  refine hR.bind (hR.firstStep hm h) fun found _ => ?_
  cases found with
  | none => exact hR.look (q := .current m) hm rfl
  | some s => exact hR.bind (hR.finish hm h) fun _ _ => hR.look (q := .current m) hm rfl

/-- The step that a stepper takes next depends on how far it has come, and this has no number in it.
-/
theorem stepFrom (phase : Stepper.Phase) :
    R.Holds (.option .state) (Run.stepFrom m inputs phase)
      (Run.stepFrom (R.ρ .machine m) (inputs.map (Value.rename R.ρ)) phase) := by
  cases phase with
  | fresh => exact hR.firstStep hm h
  | running => exact hR.nextStep hm h
  | executing | finished => exact hR.pure fun _ h => by cases h

/-- Several steps in a row, up to a limit. -/
theorem takeSteps (phase : Stepper.Phase) (limit : Nat) :
    R.Holds (.list .state) (Run.takeSteps m inputs phase limit)
      (Run.takeSteps (R.ρ .machine m) (inputs.map (Value.rename R.ρ)) phase limit) := by
  induction limit generalizing phase with
  | zero => exact hR.pure (List.forall_mem_nil _)
  | succ limit ih =>
    refine hR.bind (hR.stepFrom hm h phase) fun found hFound => ?_
    cases found with
    | none => exact hR.pure (List.forall_mem_nil _)
    | some s =>
      refine hR.bind (ih .running) fun others hOthers => ?_
      exact hR.pure (List.forall_mem_cons.mpr ⟨hFound s rfl, hOthers⟩)

end

-- ---------------------------------------------------------------------------
-- Results and messages
-- ---------------------------------------------------------------------------

/-- The latest value of a slot, of a state that is looked up or of the current one. -/
theorem latestOf (slot : Slot) {v : Value} (h : v.Within R.known) :
    R.Holds .value (Run.latestOf m slot v)
      (Run.latestOf (R.ρ .machine m) slot (v.rename R.ρ)) := by
  have hResolved : R.Holds (.option .state) (some <$> Run.resolve m v)
      (some <$> Run.resolve (R.ρ .machine m) (v.rename R.ρ)) :=
    hR.map (hR.resolve hm h) fun s hs => ⟨fun _ h => Option.some.inj h ▸ hs, rfl⟩
  cases v with
  | null =>
    refine hR.bind (hR.look (q := .current m) hm rfl) fun owner hOwner => ?_
    cases owner with
    | some s => exact hR.look (q := .latest s slot) (hOwner s rfl) rfl
    | none => exact hR.pure Value.within_null
  | _ =>
    refine hR.bind hResolved fun owner hOwner => ?_
    cases owner with
    | some s => exact hR.look (q := .latest s slot) (hOwner s rfl) rfl
    | none => exact hR.pure Value.within_null

/-- All values of a slot of a state. -/
theorem slotsOf (slot : Slot) {v : Value} (h : v.Within R.known) :
    R.Holds (.list .value) (Run.slotsOf m slot v)
      (Run.slotsOf (R.ρ .machine m) slot (v.rename R.ρ)) :=
  hR.bind (hR.resolve hm h) fun s hs => hR.look (q := .slots s slot) hs rfl

end

-- ---------------------------------------------------------------------------
-- Steppers
-- ---------------------------------------------------------------------------

theorem stepper (id : String) : R.Holds .stepper (Run.stepper id) (Run.stepper id) :=
  hR.bind (hR.look (q := .stepper id) trivial rfl) fun _ hs => hR.require (.unbound id) hs

theorem idleStepper (id : String) : R.Holds .stepper (Run.idleStepper id) (Run.idleStepper id) := by
  refine hR.bind (hR.stepper id) fun s hs => ?_
  show R.Holds _ (if s.phase = .executing then _ else _) (if s.phase = .executing then _ else _)
  split
  · exact hR.bind (d := .plain) (hR.fail' (.raised .value "generator already executing")) fun _ _ =>
      hR.pure hs
  · exact hR.pure hs

theorem setPhase (id : String) (phase : Stepper.Phase) :
    R.Holds .plain (Run.keep (.setPhase id phase)) (Run.keep (.setPhase id phase)) :=
  hR.keep (b := .setPhase id phase) trivial rfl

/-- A stepper that was put under the same name in the meantime keeps the phase that it has. -/
theorem endStep (id : String) (phase : Stepper.Phase) :
    R.Holds .plain (Run.endStep id phase) (Run.endStep id phase) := by
  refine hR.bind (hR.look (q := .stepper id) trivial rfl) fun found _ => ?_
  have hPhase : (found.map (Stepper.rename R.ρ)).any (fun s => decide (s.phase = .executing)) =
      found.any fun s => decide (s.phase = .executing) := by
    cases found <;> rfl
  show R.Holds _ _ (if (found.map (Stepper.rename R.ρ)).any _ then _ else _)
  rw [hPhase]
  split
  · exact hR.setPhase id phase
  · exact hR.pure trivial

/-- **Kept steppers correspond.** -/
theorem advance (id : String) :
    R.Holds (.option .state) (Run.advance id) (Run.advance id) := by
  refine hR.bind (hR.idleStepper id) fun s hs => hR.bind (hR.setPhase id .executing) fun _ _ => ?_
  refine hR.bind (hR.outcome (hR.stepFrom hs.machine hs.inputs s.phase)) fun result hResult => ?_
  -- what becomes of a stepper depends on whether its step failed, ended or gave a state
  have hPhase : Run.phaseAfter ((Contents.option .state).outcome.rename R.ρ result) =
      Run.phaseAfter result := by
    rcases result with fault | _ | s <;> rfl
  rw [hPhase]
  exact hR.bind (hR.endStep id _) fun _ _ => hR.ofOutcome hResult

/-- Closing a stepper ends it, whatever it has left. -/
theorem close (id : String) : R.Holds .plain (Run.close id) (Run.close id) :=
  hR.bind (hR.idleStepper id) fun _ _ => hR.setPhase id .finished

end Lawful

end Correspondence

end RuleMachine
