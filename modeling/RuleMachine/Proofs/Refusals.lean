import RuleMachine.Engine.Slots
import RuleMachine.Proofs.Choices

/-!
# Operations that do not move a machine

An operation that is given a value that refers to no state refuses it, and a switch refuses a
machine that has not been started. Refusing changes nothing at any moment, not even the log.

A switch that comes to follow no rule did nothing but ask predicates, of the state that was current
when it began, and say that there is no transition. What has become of the world by then, those
predicates have made of it.

Main statement: `Config.unmoved`, for every world and whatever functions do.
-/

namespace RuleMachine

-- ---------------------------------------------------------------------------
-- Refusing
-- ---------------------------------------------------------------------------

/-- Whether a program refuses in a world: it fails for a cause, and at every moment the world is as
it was, with its log, so no function is called and nothing is recorded. -/
structure Run.Refuses (handler : Handler) (w : World) (cause : Cause) {α : Type} (x : Run α) :
    Prop where
  fails : (Config.begin x w).Ends handler (.error (w.fault cause)) w
  still : ∀ n, ((Config.begin x w).after .standard handler n).world = w

/-- If the world stays as it is until a program ends and afterwards, it stays as it is. -/
theorem Config.still_andThen {handler : Handler} {α β : Type} {c : Config β} {b : β} {w : World}
    {k : β → Program α} (hEnds : c.Ends handler b w)
    (hFirst : ∀ n, (c.after .standard handler n).world = w)
    (hThen : ∀ n, (({ program := k b, world := w } : Config α).after .standard handler n).world = w)
    (n : Nat) : ((c.andThen k).after .standard handler n).world = w := by
  obtain ⟨steps, hEnds⟩ := hEnds
  -- on the steps that the first program takes to its end
  induction steps generalizing c n with
  | zero =>
    obtain rfl : c = { program := .ret b, world := w } := hEnds
    exact hThen n
  | succ steps ih =>
    cases hNext : c.next .standard handler with
    | none =>
      rw [after_of_next_eq_none hNext] at hEnds
      rw [hEnds]
      exact hThen n
    | some c' =>
      rw [after_succ_of_next hNext] at hEnds
      cases n with
      | zero => exact hFirst 0
      | succ n =>
        rw [after_succ_of_next (next_andThen k hNext)]
        refine ih (fun n => ?_) n hEnds
        rw [← after_succ_of_next hNext]
        exact hFirst (n + 1)

namespace Run.Refuses

variable {handler : Handler} {w : World} {cause : Cause} {α β : Type}

/-- A failure is refused with its cause. -/
theorem fail : Refuses handler w cause (Run.fail cause : Run α) where
  fails := .of_next rfl
  still n := by
    cases n with
    | zero => rfl
    | succ n => exact congrArg Config.world (Config.after_ret _ w n)

/-- Looking makes no difference. -/
theorem look {q : Query β} {b : β} {f : β → Run α} (hAnswer : q.answer w = .ok b)
    (h : Refuses handler w cause (f b)) : Refuses handler w cause (Run.look q >>= f) where
  fails := (Config.leads_look hAnswer f).trans h.fails
  still n := by
    cases n with
    | zero => rfl
    | succ n =>
      have hNext : (Config.begin (Run.look q >>= f) w).next .standard handler =
          some (Config.begin (f b) w) := Config.next_act (standard_look hAnswer) f
      rw [Config.after_succ_of_next hNext]
      exact h.still n

/-- What is to come after a refusal does not come. -/
theorem bind {x : Run β} (h : Refuses handler w cause x) (f : β → Run α) :
    Refuses handler w cause (x >>= f) where
  fails := h.fails.bind_error f
  still n := by
    rw [Config.begin, run_bind]
    refine Config.still_andThen h.fails h.still (fun n => ?_) n
    exact congrArg Config.world (Config.after_ret _ w n)

end Run.Refuses

-- ---------------------------------------------------------------------------
-- What refers to no state
-- ---------------------------------------------------------------------------

/-- How a value that refers to no state is reported: a state by its name, anything else as it is. -/
def World.reported (w : World) : Value → Value
  | .state s => (w.state s).name
  | v => v

/-- The values that refer to no state of a machine in use. -/
inductive World.Unknown (w : World) (m : MachineRef) : Value → Prop
  /-- No state was declared under a name equal to the value. -/
  | undeclared {v : Value} (hValue : ∀ s, v ≠ .state s)
    (hNames : ∀ i < (w.machine m).states.length, ((w.machine m).nameOf i).eqv v = false) :
    Unknown w m v
  | unhashable {v : Value} (hValue : ∀ s, v ≠ .state s) (hHash : v.hashable = false) :
    Unknown w m v
  /-- A state of another machine, whatever its name is. -/
  | foreign {s : StateRef} (hMachine : s.machine ≠ m) : Unknown w m (.state s)
  /-- A state whose machine is gone. -/
  | gone {s : StateRef} (hAlive : w.alive m = true) (hGone : w.alive s.machine = false) :
    Unknown w m (.state s)

/-- What is no state object is looked up by name. -/
theorem Machine.resolve?_of_ne {v : Value} (h : ∀ s, v ≠ .state s) (m : Machine)
    (self : MachineRef) : m.resolve? self v = m.find? v := by
  cases v with
  | state s => exact absurd rfl (h s)
  | _ => rfl

/-- A state object of another machine is never looked up. -/
theorem World.resolve?_of_foreign (w : World) {m : MachineRef} {s : StateRef} (h : s.machine ≠ m) :
    (w.machine m).resolve? m (.state s) = none :=
  if_neg fun hOwn => h hOwn.1

/-- What is unknown to a machine resolves to nothing there. -/
theorem World.Unknown.resolve? {w : World} {m : MachineRef} {v : Value} (h : w.Unknown m v) :
    (w.machine m).resolve? m v = none := by
  cases h with
  | undeclared hValue hNames =>
    rw [Machine.resolve?_of_ne hValue, Machine.find?]
    split
    · rw [List.findIdx?_eq_none_iff]
      intro s hs
      obtain ⟨i, hi, rfl⟩ := List.getElem_of_mem hs
      have hName := hNames i hi
      rwa [Machine.nameOf, Machine.state, List.getElem?_eq_getElem hi] at hName
    · rfl
  | unhashable hValue hHash =>
    rw [Machine.resolve?_of_ne hValue, Machine.find?, hHash]
    rfl
  | foreign hMachine => exact w.resolve?_of_foreign hMachine
  -- a machine that is gone is another one than this, which is there
  | gone hAlive hGone =>
    refine w.resolve?_of_foreign fun hSame => ?_
    rw [hSame, hAlive] at hGone
    cases hGone

namespace Run.Refuses

variable {handler : Handler} {w : World} {m : MachineRef} {v : Value}

/-- A look-up of something unknown is refused. -/
theorem resolve (hUnknown : (w.machine m).resolve? m v = none) :
    Refuses handler w (.unknownState (w.reported v) none) (Run.resolve m v) := by
  have hAnswer : (Query.resolve m v).answer w = .ok none := by rw [Query.answer, hUnknown]; rfl
  refine look hAnswer ?_
  cases v with
  | state s => exact look rfl fail
  | _ => exact fail

/-- The first of several values that refers to no state is the one that is refused. -/
theorem resolveAll (hUnknown : (w.machine m).resolve? m v = none) {before : List Value}
    (hBefore : ∀ u ∈ before, (w.machine m).resolve? m u ≠ none) (after : List Value) :
    Refuses handler w (.unknownState (w.reported v) none)
      (Run.resolveAll m (before ++ v :: after)) := by
  induction before with
  | nil => exact (resolve hUnknown).bind _
  | cons u rest ih =>
    -- the references before are found one after the other, which changes nothing
    obtain ⟨i, hi⟩ := Option.ne_none_iff_exists'.mp (hBefore u List.mem_cons_self)
    have hAnswer : (Query.resolve m u).answer w = .ok (some { machine := m, index := i }) := by
      rw [Query.answer, hi]
      rfl
    rw [List.cons_append, Run.resolveAll, Run.resolve, bind_assoc]
    exact look hAnswer ((ih fun u hu => hBefore u (List.mem_cons_of_mem _ hu)).bind _)

/-- A reading for something unknown is refused, unless it is for the current visit. -/
theorem latestOf (hUnknown : (w.machine m).resolve? m v = none) (hNull : v ≠ .null) (slot : Slot) :
    Refuses handler w (.unknownState (w.reported v) none) (Run.latestOf m slot v) := by
  cases v with
  | null => exact absurd rfl hNull
  | _ => exact ((resolve hUnknown).bind fun s => pure (some s)).bind _

/-- A machine that has not been started has no current state to give. -/
theorem currentState (hCurrent : w.current? m = none) :
    Refuses handler w .notStarted (Run.currentState m) := by
  have hAnswer : (Query.current m).answer w = .ok none := by rw [Query.answer, hCurrent]
  exact look hAnswer fail

end Run.Refuses

-- ---------------------------------------------------------------------------
-- Switches that follow no rule
-- ---------------------------------------------------------------------------

/-- The world that the calls among some deeds have left, the last of them. -/
def World.leftByCalls (w : World) : List Deed → World
  | [] => w
  | d :: ds =>
    match d.act with
    | .call _ _ => d.after.leftByCalls ds
    | .perform _ => w.leftByCalls ds

/-- What a switch of a machine out of a state does itself if it follows no rule. -/
inductive Refrains (w : World) (m : MachineRef) (s : StateRef) (inputs : List Value) : Act → Prop
  /-- It asks predicates of the state, with the state and the inputs. -/
  | asks {a : Act} (h : Asks (.state s :: inputs) (w.state s).rules a) : Refrains w m s inputs a
  /-- It puts into the log that there is no transition. -/
  | logs (name : Value) : Refrains w m s inputs (.perform (.keep (.noTransition m name)))
  /-- It fails. -/
  | fails {β : Type} (cause : Cause) : Refrains w m s inputs (.perform (.fail cause : Primitive β))

/-- Whether a switch of a machine comes to follow a rule. -/
def World.Fires (handler : Handler) (w : World) (m : MachineRef) (inputs : List Value)
    (rule : Rule) : Prop :=
  ∃ s w₁, w.current? m = some s ∧
    (Config.begin (w.choice m s inputs) w).Ends handler (.ok (some rule)) w₁

/-- What a switch did that follows no rule. `w'` is the world where it stands by then. -/
structure Unmoved (w : World) (m : MachineRef) (s : StateRef) (inputs : List Value)
    (ds : List Deed) (w' : World) : Prop where
  /-- It called nothing but predicates. -/
  refrains : ∀ d ∈ ds, Refrains w m s inputs d.act
  /-- Apart from the log, the world is as the predicates left it. -/
  left : w' = { w.leftByCalls ds with log := w'.log }
  /-- If each of them left the machine alone, the machine is as it was. -/
  alone : (∀ d ∈ ds, ∀ f args, d.act = .call f args → d.after.machine m = d.before.machine m) →
    w'.machine m = w.machine m

section

variable {handler : Handler} {w w' : World} {m : MachineRef} {s : StateRef}
  {inputs : List Value} {ds : List Deed}

/-- What such a switch does apart from calls touches nothing but the log. -/
theorem Refrains.effect {β : Type} {p : Primitive β} (h : Refrains w m s inputs (.perform p))
    (v : World) : (p.effect v).2 = { v with log := (p.effect v).2.log } := by
  cases h with
  | asks h => cases h
  | logs name => rfl
  | fails cause => rfl

/-- If nothing but calls touches more than the log, the world is as the calls left it. -/
theorem World.leftByCalls_eq {w₀ : World} (hLinked : Config.Linked w ds w')
    (hStart : w = { w₀ with log := w.log })
    (hOthers : ∀ d ∈ ds, ∀ (β : Type) (p : Primitive β), d.act = .perform p →
      d.after = { d.before with log := d.after.log }) :
    w' = { w₀.leftByCalls ds with log := w'.log } := by
  induction ds generalizing w w₀ with
  | nil =>
    obtain rfl : w = w' := hLinked
    exact hStart
  | cons d rest ih =>
    obtain ⟨hBefore, hRest⟩ := hLinked
    have hOthers' := fun d' hd' => hOthers d' (List.mem_cons_of_mem _ hd')
    cases hAct : d.act with
    -- from a call on the world that the call left is the one to compare with
    | call f args =>
      simp only [leftByCalls, hAct]
      exact ih hRest rfl hOthers'
    | perform p =>
      simp only [leftByCalls, hAct]
      refine ih hRest ?_ hOthers'
      rw [hOthers d List.mem_cons_self _ p hAct, hBefore, hStart]

/-- If neither calls nor anything else touches a machine, it is as it was. -/
theorem Config.Linked.machine_eq (hLinked : Linked w ds w')
    (h : ∀ d ∈ ds, d.after.machine m = d.before.machine m) : w'.machine m = w.machine m := by
  induction ds generalizing w with
  | nil => exact congrArg (World.machine · m) hLinked.symm
  | cons d rest ih =>
    obtain ⟨hBefore, hRest⟩ := hLinked
    rw [ih hRest fun d' hd' => h d' (List.mem_cons_of_mem _ hd'), h d List.mem_cons_self, hBefore]

/-- If all that is done refrains from moving the machine, it is left unmoved. -/
theorem Unmoved.of_did {α : Type} {c c' : Config α} (hDid : c.Did handler ds c')
    (h : ∀ d ∈ ds, Refrains c.world m s inputs d.act) :
    Unmoved c.world m s inputs ds c'.world := by
  -- what is not a call writes into the log at most
  have hOthers : ∀ d ∈ ds, ∀ (β : Type) (p : Primitive β), d.act = .perform p →
      d.after = { d.before with log := d.after.log } := by
    intro d hd β p hAct
    have hRefrains := h d hd
    rw [hAct] at hRefrains
    rw [(hDid.of_perform hd hAct).1]
    exact hRefrains.effect d.before
  refine ⟨h, World.leftByCalls_eq hDid.linked rfl hOthers, fun hAlone => ?_⟩
  refine hDid.linked.machine_eq fun d hd => ?_
  cases hAct : d.act with
  | call f args => exact hAlone d hd f args hAct
  | perform p =>
    rw [hOthers d hd _ p hAct]
    rfl

/-- Choosing is asking predicates, or failing. -/
theorem World.choice_refrains (w : World) (m : MachineRef) (s : StateRef) (inputs : List Value) :
    (w.choice m s inputs).DoesOnly (Refrains w m s inputs) :=
  Run.choose_doesOnly (fun _ h => .asks h) fun _ _ => .fails _

/-- What follows a choice of no rule. -/
theorem Run.follow_none_refrains :
    (follow m s none).DoesOnly (Refrains w m s inputs) := by
  refine (doesOnly_look (.name s)).bind fun name => ?_
  exact (doesOnly_act (.logs name)).bind fun _ => doesOnly_pure none

variable (hCurrent : w.current? m = some s) (hFires : ∀ rule, ¬ w.Fires handler m inputs rule)
include hCurrent hFires

/-- A try in which no rule fires asks predicates, records, and does no more. -/
theorem Run.Does.trySwitch_refrains :
    Does handler w (Refrains w m s inputs) (Run.trySwitch m inputs) := by
  refine trySwitch hCurrent (w.choice_refrains m s inputs).does ?_
  rintro (_ | rule) w₁ hEnds
  · exact follow_none_refrains.does
  · exact absurd ⟨s, w₁, hCurrent, hEnds⟩ (hFires rule)

/-- So does a switch. -/
theorem Run.Does.switch_refrains :
    Does handler w (Refrains w m s inputs) (Run.switch m inputs) := by
  rw [switch_eq]
  exact (trySwitch_refrains hCurrent hFires).bind fun r _ _ =>
    (insist_doesOnly (.fails _) (fun _ => .fails _) r).does

end

-- ---------------------------------------------------------------------------
-- Together
-- ---------------------------------------------------------------------------

/-- Every operation that looks up a value refuses it, and reports it. -/
structure World.Rejects (handler : Handler) (w : World) (m : MachineRef) (v : Value) : Prop where
  setState : Run.Refuses handler w (.unknownState (w.reported v) none) (Run.setState m v)
  /-- If several values are looked up, it is the first that refers to no state. -/
  states : ∀ before after, (∀ u ∈ before, (w.machine m).resolve? m u ≠ none) →
    Run.Refuses handler w (.unknownState (w.reported v) none)
      (Run.resolveAll m (before ++ v :: after))
  slots : ∀ slot, Run.Refuses handler w (.unknownState (w.reported v) none) (Run.slotsOf m slot v)
  /-- Null stands for the current state here. -/
  latest : v ≠ .null → ∀ slot,
    Run.Refuses handler w (.unknownState (w.reported v) none) (Run.latestOf m slot v)

/-- What refers to no state is rejected. -/
theorem World.Rejects.of_resolve? {handler : Handler} {w : World} {m : MachineRef} {v : Value}
    (hUnknown : (w.machine m).resolve? m v = none) : w.Rejects handler m v where
  setState := (Run.Refuses.resolve hUnknown).bind _
  states _ after hBefore := .resolveAll hUnknown hBefore after
  slots _ := (Run.Refuses.resolve hUnknown).bind _
  latest := .latestOf hUnknown

/-- How a switch out of a state ends if it follows no rule. -/
structure World.EndsUnmoved (handler : Handler) (w : World) (m : MachineRef) (s : StateRef)
    (inputs : List Value) : Prop where
  /-- No predicate holds. -/
  none : ∀ w₁, (Config.begin (w.choice m s inputs) w).Ends handler (.ok none) w₁ →
    let w₂ := (Bookkeeping.noTransition m (w₁.state s).name).apply w₁
    (Config.begin (Run.trySwitch m inputs) w).Ends handler (.ok none) w₂ ∧
      (Config.begin (Run.switch m inputs) w).Ends handler (.error (w₂.fault (w₂.standstill m))) w₂
  /-- A predicate fails, or too many hold. -/
  error : ∀ fault w₁, (Config.begin (w.choice m s inputs) w).Ends handler (.error fault) w₁ →
    (Config.begin (Run.trySwitch m inputs) w).Ends handler (.error fault) w₁ ∧
      (Config.begin (Run.switch m inputs) w).Ends handler (.error fault) w₁

namespace Config

/-- **Operations that do not move a machine leave it alone.** What refers to no state is refused,
and so is a switch of a machine that has not been started. A switch that comes to follow no rule
does nothing itself but ask predicates. -/
theorem unmoved (handler : Handler) (w : World) (m : MachineRef) :
    (∀ v, w.Unknown m v → (w.machine m).resolve? m v = none) ∧
    (∀ v, (w.machine m).resolve? m v = none → w.Rejects handler m v) ∧
    (∀ inputs, w.current? m = none →
      Run.Refuses handler w .notStarted (Run.trySwitch m inputs) ∧
        Run.Refuses handler w .notStarted (Run.switch m inputs)) ∧
    ∀ inputs s, w.current? m = some s →
      w.EndsUnmoved handler m s inputs ∧
      ((∀ rule, ¬ w.Fires handler m inputs rule) →
        (∀ ds c', (begin (Run.trySwitch m inputs) w).Did handler ds c' →
          Unmoved w m s inputs ds c'.world) ∧
        ∀ ds c', (begin (Run.switch m inputs) w).Did handler ds c' →
          Unmoved w m s inputs ds c'.world) := by
  refine ⟨fun v h => h.resolve?, fun v hUnknown => ?rejected, fun inputs hCurrent => ?notStarted,
    fun inputs s hCurrent => ⟨?ends, fun hFires => ⟨?trySwitch, ?switch⟩⟩⟩
  case rejected => exact .of_resolve? hUnknown
  case notStarted =>
    have hTry : Run.Refuses handler w .notStarted (Run.trySwitch m inputs) :=
      (Run.Refuses.currentState hCurrent).bind _
    exact ⟨hTry, hTry.bind _⟩
  case ends =>
    exact
      { none := fun w₁ h => ⟨ends_trySwitch_none hCurrent h, ends_switch_none hCurrent h⟩
        error := fun fault w₁ h => ⟨ends_trySwitch_error hCurrent h, ends_switch_error hCurrent h⟩ }
  case trySwitch =>
    exact fun ds c' h => .of_did h (Run.Does.trySwitch_refrains hCurrent hFires ds c' h)
  case switch =>
    exact fun ds c' h => .of_did h (Run.Does.switch_refrains hCurrent hFires ds c' h)

/-- A turnstile that opens for a coin. -/
def turnstile : Value :=
  .map
    [(.text "locked", .map [(.text "rules", .map [(.text "open", .function "coin")])]),
      (.text "open", .map [])]

/-- Nobody has a coin. -/
def penniless : Handler := fun _ _ => return .bool false

/-- Builds and locks the turnstile. -/
def lockTurnstile : Run (Option StateRef) := do
  let m ← Run.build turnstile none
  Run.start m

/-- A locked turnstile knows no third state, and stays locked for want of a coin. -/
theorem unmoved_turnstile :
    let locked : StateRef := { machine := 0, index := 0 }
    let w := ((start (ExceptT.run lockTurnstile)).after .standard penniless 9).world
    w.current? 0 = some locked ∧
      Run.Refuses penniless w (.unknownState (.text "broken") none)
        (Run.setState 0 (.text "broken")) ∧
      ∀ ds c', (begin (Run.switch 0 []) w).Did penniless ds c' →
        Unmoved w 0 locked [] ds c'.world := by
  intro locked w
  have hCurrent : w.current? 0 = some locked := rfl
  have hUnknown : (w.machine 0).resolve? 0 (.text "broken") = none := by decide +kernel
  have hChoice : (begin (w.choice 0 locked []) w).Ends penniless (.ok none)
      (w.emit (.called "coin" [.state locked])) := ⟨10, rfl⟩
  -- the choice ends with no rule, and executions are deterministic
  have hFires : ∀ rule, ¬ w.Fires penniless 0 [] rule := by
    rintro rule ⟨s, w₁, hs, hEnds⟩
    obtain rfl := Option.some.inj (hCurrent.symm.trans hs)
    cases (hEnds.unique hChoice).1
  obtain ⟨-, hRejects, -, hSwitch⟩ := unmoved penniless w 0
  exact ⟨hCurrent, (hRejects (.text "broken") hUnknown).setState,
    ((hSwitch [] locked hCurrent).2 hFires).2⟩

end Config

end RuleMachine
