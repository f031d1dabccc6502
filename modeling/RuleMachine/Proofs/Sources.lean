import RuleMachine.Proofs.Choices

/-!
# Where a switch leaves from

A switch evaluates the rules of the state that is current when it begins. That is the state named
where a switch says what it leaves: in the log, and if rules are ambiguous. But predicates may move
the machine, and the state that is left in the end, whose exit actions run and which the actions of
the rule get to see, is the one that is current once the predicates have been asked. So is the state
that a failing switch names. If the predicates leave the machine where it is, all this is one state.

Main statement: `Config.switch_source`, for every moment of every execution.
-/

namespace RuleMachine

-- ---------------------------------------------------------------------------
-- What a switch says that it leaves
-- ---------------------------------------------------------------------------

/-- The name of the state that is said to be left, where that is said. -/
def Act.leftName? : Act → Option Value
  | .perform (.keep (.switching _ source _)) => some source
  | .perform (.keep (.noTransition _ source)) => some source
  | .perform (.fail (.ambiguous source _)) => some source
  | _ => none

/-- Whether a name is the one that is given to the state left, if one is given. -/
def Act.Leaves (name : Value) (a : Act) : Prop := ∀ v ∈ a.leftName?, v = name

theorem Asks.leaves {args : List Value} {rules : List Rule} {a : Act} (h : Asks args rules a)
    (name : Value) : a.Leaves name := by
  cases h with
  | ask hRule hPredicate => exact fun v hv => by cases hv

namespace Run

variable {handler : Handler} {w w₁ : World} {m : MachineRef} {s : StateRef} {inputs : List Value}

/-- Choosing says which state is left only if rules are ambiguous. -/
theorem Does.choice_leaves (hs : w.declares s) :
    Does handler w (Act.Leaves (w.state s).name) (w.choice m s inputs) := by
  have hAsks (a : Act) (h : Asks (.state s :: inputs) (w.state s).rules a) :
      a.Leaves (w.state s).name := h.leaves _
  unfold World.choice choose
  split
  · refine (matching_doesOnly hAsks).does.bind fun found w₁ hEnds => ?_
    -- with more than one the message of the failure names the state whose rules they are
    match found with
    | [] => exact (doesOnly_pure none).does
    | [rule] => exact (doesOnly_pure (some rule)).does
    | _ :: _ :: _ =>
      refine look rfl ((namesOf_doesOnly _).does.bind fun candidates _ _ => ?_)
      refine (doesOnly_act fun v hv => ?_).does
      obtain rfl := Option.some.inj hv
      exact hEnds.sameTables.name hs
  · exact (firstMatch_doesOnly hAsks).does

/-- Following the choice says so in the log. -/
theorem Does.follow_leaves (r : Option Rule) :
    Does handler w (Act.Leaves (w.state s).name) (follow m s r) := by
  have hKept {name : Value} {b : Bookkeeping}
      (h : ∀ v ∈ (Act.perform (.keep b)).leftName?, v = name) :
      Does handler w (Act.Leaves name) (Run.keep b) := (doesOnly_act h).does
  -- with no rule the record says so, with a rule it names both ends before the entry
  cases r with
  | none =>
    refine look rfl ((hKept fun v hv => ?_).bind fun _ _ _ => (doesOnly_pure none).does)
    exact (Option.some.inj hv).symm
  | some rule =>
    refine look rfl (look rfl ((hKept fun v hv => ?_).bind fun _ _ _ => ?_))
    · exact (Option.some.inj hv).symm
    · have hEnter : (enter rule.target rule.actions).DoesOnly (Act.Leaves (w.state s).name) :=
        enter_doesOnly (fun f args v hv => by cases hv) (fun v hv => by cases hv) rule.actions
      exact (hEnter.bind fun t => doesOnly_pure (some t)).does

/-- Whatever a try says that it leaves is the state that was current when it began. -/
theorem Does.trySwitch_leaves (hs : w.declares s) (hCurrent : w.current? m = some s) :
    Does handler w (Act.Leaves (w.state s).name) (Run.trySwitch m inputs) := by
  refine trySwitch hCurrent (choice_leaves hs) fun r w₁ hEnds => ?_
  rw [← hEnds.sameTables.name hs]
  exact follow_leaves r

/-- So does a switch, whose own failure is about the state that is current by then. -/
theorem Does.switch_leaves (hs : w.declares s) (hCurrent : w.current? m = some s) :
    Does handler w (Act.Leaves (w.state s).name) (Run.switch m inputs) := by
  rw [switch_eq]
  refine (trySwitch_leaves hs hCurrent).bind fun r _ _ => (insist_doesOnly ?_ ?_ r).does
  · exact fun v hv => by cases hv
  · exact fun name v hv => by cases hv

end Run

-- ---------------------------------------------------------------------------
-- What a switch leaves
-- ---------------------------------------------------------------------------

namespace World

/-- What it takes to go from one state to another: the exit actions of the first, the actions of a
rule with both, the commitment, and the enter actions and the body of the second. -/
def passage (w : World) (source : Option StateRef) (target : StateRef)
    (actions : List FunctionName) : List Act :=
  w.exits source ++ calls actions [(source.map Value.state).getD .null, .state target] ++
    .perform (.commit target) :: w.arrival target

theorem plan_eq_passage (w : World) (target : StateRef) (actions : List FunctionName) :
    w.plan target actions = w.passage (w.current? target.machine) target actions := rfl

theorem machine_of_current? {w : World} {m : MachineRef} {s : StateRef}
    (h : w.current? m = some s) : s.machine = m := by
  obtain ⟨i, -, rfl⟩ := Option.map_eq_some_iff.mp h
  rfl

/-- It takes the same as long as the table is the same. -/
theorem passage_of_declared {w w' : World} {m : MachineRef}
    (h : (w'.machine m).declared = (w.machine m).declared) {source : Option StateRef}
    (hSource : ∀ s ∈ source, s.machine = m) {target : StateRef} (hTarget : target.machine = m)
    (actions : List FunctionName) :
    w'.passage source target actions = w.passage source target actions := by
  -- the actions are declared, so they are those of either world
  have hActions {s : StateRef} (hs : s.machine = m) (slot : ActionSlot) :
      (w'.state s).actions slot = (w.state s).actions slot := by
    subst hs
    exact Machine.actions_of_declared h s.index slot
  have hExits : w'.exits source = w.exits source := by
    cases source with
    | none => rfl
    | some s => exact congrArg (calls · [.state s]) (hActions (hSource s rfl) .onExit)
  have hArrival : w'.arrival target = w.arrival target :=
    congrArg₂ (fun fs gs => calls fs [.state target] ++ calls gs [.state target])
      (hActions hTarget .onEnter) (hActions hTarget .body)
  rw [passage, passage, hExits, hArrival]

/-- What a switch out of a state leaves. -/
structure LeavesFrom (handler : Handler) (w : World) (m : MachineRef) (s : StateRef)
    (inputs : List Value) : Prop where
  /-- In the log and if rules are ambiguous, the state is named whose rules were evaluated. -/
  said : Run.Does handler w (Act.Leaves (w.state s).name) (Run.trySwitch m inputs) ∧
    Run.Does handler w (Act.Leaves (w.state s).name) (Run.switch m inputs)
  /-- A rule of that state leads from the state that is current after the predicates to its
  target. -/
  left : ∀ rule w₁,
    (Config.begin (w.choice m s inputs) w).Ends handler (.ok (some rule)) w₁ →
      rule ∈ (w.state s).rules ∧
      ∃ w₂, w₂.machines = w₁.machines ∧
        (Config.begin (Run.trySwitch m inputs) w).Leads handler
          ((Config.begin (Run.enter rule.target rule.actions) w₂).andThen fun r =>
            .ret (r.map some)) ∧
        ∀ ds c', (Config.begin (Run.enter rule.target rule.actions) w₂).Did handler ds c' →
          ds.map Deed.act ++ c'.program.pending <+:
            w.passage (w₁.current? m) rule.target rule.actions
  /-- Without a rule to follow, it is that state which is named. -/
  missed : ∀ w₁, (Config.begin (w.choice m s inputs) w).Ends handler (.ok none) w₁ →
    (w₁.current? m = some s → w₁.standstill m = .noTransition (w.state s).name) ∧
    ∃ w₂, w₂.machines = w₁.machines ∧
      (Config.begin (Run.switch m inputs) w).Ends handler (.error (w₂.fault (w₁.standstill m))) w₂

end World

namespace Config

/-- **A switch says that it leaves the state whose rules it evaluated, and leaves the one that is
current once it has asked its predicates.** These are one state unless a predicate moves the
machine. -/
theorem switch_source {α : Type} (handler : Handler) (p : Program α) (n : Nat) {m : MachineRef}
    {s : StateRef} (inputs : List Value)
    (hCurrent : ((start p).after .standard handler n).world.current? m = some s) :
    ((start p).after .standard handler n).world.LeavesFrom handler m s inputs := by
  generalize hw : ((start p).after .standard handler n).world = w at hCurrent ⊢
  have hConsistent (ref : MachineRef) : (w.machine ref).Consistent ref := by
    rw [← hw]
    exact consistent handler p n ref
  obtain ⟨rfl, hs⟩ := (hConsistent m).declares_current hCurrent
  refine ⟨⟨.trySwitch_leaves hs hCurrent, .switch_leaves hs hCurrent⟩, fun rule w₁ hChosen => ?left,
    fun w₁ hChosen => ⟨fun hStayed => ?named, ?failed⟩⟩
  case left =>
    have hRule : rule ∈ (w.state s).rules :=
      (Run.choose_answers _ _ _ inputs).after hChosen rule rfl
    obtain ⟨hMachine, hDeclared⟩ := (hConsistent s.machine).declares_target hs hRule
    have hLeads := (comesToEntry_trySwitch hConsistent hCurrent hChosen).leads
    set w₂ := (Bookkeeping.switching s.machine (w₁.state s).name
      (w₁.state rule.target).name).apply w₁
    have hSame : w.SameTables w₂ := hChosen.sameTables
    have hTarget : w₂.declares rule.target := hSame.declares hDeclared
    refine ⟨hRule, w₂, rfl, hLeads, fun ds c' hDid => ?_⟩
    -- the entry leaves what is current by then, but its actions are declared ones
    have hPlan := (Follows.enter hTarget rule.actions ds c' hDid).order
    rw [World.plan_eq_passage, hMachine, World.passage_of_declared (hSame.declared hs)
      (fun t ht => World.machine_of_current? ht) hMachine] at hPlan
    exact hPlan
  case named =>
    rw [World.standstill, hStayed]
    exact congrArg Cause.noTransition (hChosen.sameTables.name hs)
  case failed =>
    have hEnds := ends_switch_none hCurrent hChosen
    simp only [Bookkeeping.apply, World.standstill_record] at hEnds
    refine ⟨_, ?_, hEnds⟩
    rfl

end Config

/-- Whether a function is called with one state and another. -/
def Event.passes (source target : StateRef) : Event → Bool
  | .called _ [.state s, .state t] => s == source && t == target
  | _ => false

namespace Config

/-- Three stations. From the first a rule leads to the third, past an announcement. -/
def stations : Value :=
  .map
    [(.text "a", .map
        [(.text "rules", .map [(.text "c", .list [.function "detour", .function "announce"])])]),
      (.text "b", .map []), (.text "c", .map [])]

/-- The predicate of the rule holds, but takes the machine to the second station. -/
def detouring : Handler := fun f _ =>
  if f = "detour" then do
    let _ ← Run.setState 0 (.text "b")
    return .bool true
  else return .null

/-- Builds the stations and enters the first. -/
def atFirstStation : Run (Option StateRef) := do
  let m ← Run.build stations none
  Run.start m

/-- Whatever the predicate does, the switch says that it leaves the first station. -/
theorem switch_source_detour :
    let a : StateRef := { machine := 0, index := 0 }
    let w := ((start (ExceptT.run atFirstStation)).after .standard detouring 9).world
    w.current? 0 = some a ∧
      Run.Does detouring w (Act.Leaves (w.state a).name) (Run.switch 0 []) := by
  intro a w
  have hCurrent : w.current? 0 = some a := rfl
  exact ⟨hCurrent, (switch_source detouring (ExceptT.run atFirstStation) 9 [] hCurrent).said.2⟩

/-- But what it announces is the passage from the second to the third. -/
theorem switch_source_moved :
    let a : StateRef := { machine := 0, index := 0 }
    let b : StateRef := { machine := 0, index := 1 }
    let c : StateRef := { machine := 0, index := 2 }
    let w := ((start (ExceptT.run atFirstStation)).after .standard detouring 9).world
    w.current? 0 = some a ∧ ∃ w', (begin (Run.switch 0 []) w).Ends detouring (.ok c) w' ∧
      w'.log.any (fun e => e.event.passes b c) = true ∧
      w'.log.any (fun e => e.event.passes a c) = false := by
  intro a b c w
  have hEnd :
      let c' := (begin (Run.switch 0 []) w).after .standard detouring 40
      c'.answer?.bind Except.toOption = some c ∧
        c'.world.log.any (fun e => e.event.passes b c) = true ∧
        c'.world.log.any (fun e => e.event.passes a c) = false := by decide +kernel
  exact ⟨rfl, _, .of_toOption hEnd.1, hEnd.2⟩

end Config

end RuleMachine
