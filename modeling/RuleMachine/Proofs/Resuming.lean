import RuleMachine.Proofs.Choices

/-!
# Stopping a run and going on

A run of a machine is a loop, and a stepper takes the same steps one at a time. A stepper that has
entered some states has brought the machine to a point that a single run comes through as well, and
a new run goes on from there: it does not start the machine again, and nothing is skipped or
repeated.

If the stepper was kept under a name, the world remembers that there is one and keeps its machine
alive for it. As long as the machine is alive anyway and nobody else uses the stepper, this makes no
difference.

Main statement: `Config.resume`, for every world and whatever functions do.
-/

namespace RuleMachine

-- ---------------------------------------------------------------------------
-- The loop of a run
-- ---------------------------------------------------------------------------

namespace Run

variable {α : Type}

/-- What follows the first step of a run: the others, if there was one. -/
def runOn (m : MachineRef) (inputs : List Value) : Option StateRef → Run (Option StateRef)
  | none => look (.current m)
  | some _ => finish m inputs >>= fun _ => look (.current m)

theorem run_eq (m : MachineRef) (inputs : List Value) :
    run m inputs = firstStep m inputs >>= runOn m inputs := by
  refine congrArg (firstStep m inputs >>= ·) (funext fun r => ?_)
  cases r <;> rfl

end Run

namespace Config

variable {handler : Handler} {α : Type} {w w₁ : World} {m : MachineRef} {inputs : List Value}

/-- A turn of a repetition: the body, and the repetition again unless that gave an answer. -/
theorem next_repeatUntil {β : Type} (body : Run (Option β)) (f : β → Run α) :
    (begin (Run.repeatUntil body >>= f) w).next .standard handler =
      some (begin (body >>= fun
        | none => Run.repeatUntil body >>= f
        | some b => f b) w) := by
  simp only [begin, Run.run_bind, Run.repeatUntil]
  refine congrArg (fun p => some (Config.mk p w)) ?_
  rw [Program.unroll, Program.bind_assoc]
  refine congrArg (Program.bind (ExceptT.run body)) (funext fun r => ?_)
  -- a failure and a value leave the loop, nothing goes round again
  rcases r with fault | _ | b
  · rfl
  · exact (Run.run_bind (Run.repeatUntil body) f).symm
  · rfl

/-- The loop of a run begins with a turn. -/
theorem next_turn (s : StateRef) :
    (begin (Run.runOn m inputs (some s)) w).next .standard handler =
      some (begin (Run.nextStep m inputs >>= Run.runOn m inputs) w) := by
  rw [Run.runOn, Run.finish, next_repeatUntil, bind_assoc]
  refine congrArg (fun f => some (begin (Run.nextStep m inputs >>= f) w)) (funext fun r => ?_)
  cases r <;> rfl

/-- After its first step a run goes on with a turn of its loop. -/
theorem leads_turn (s : StateRef) :
    (begin (Run.runOn m inputs (some s)) w).Leads handler
      (begin (Run.nextStep m inputs >>= Run.runOn m inputs) w) :=
  .of_next (next_turn s)

/-- A run of a machine that has a current state begins with a turn of the loop. -/
theorem leads_run_of_current {s : StateRef} (hCurrent : w.current? m = some s) :
    (begin (Run.run m inputs) w).Leads handler
      (begin (Run.nextStep m inputs >>= Run.runOn m inputs) w) := by
  have hAnswer : (Query.current m).answer w = .ok (some s) := by rw [Query.answer, hCurrent]
  rw [Run.run_eq, Run.firstStep, bind_assoc]
  exact leads_look hAnswer _

/-- What a stepper did that entered as many states as it was asked for: the first step, and the
others. -/
theorem ends_takeSteps {phase : Stepper.Phase} {k : Nat} {states : List StateRef}
    (hTaken : (begin (Run.takeSteps m inputs phase (k + 1)) w).Ends handler (.ok states) w₁)
    (hStates : states.length = k + 1) :
    ∃ s others v, states = s :: others ∧ others.length = k ∧
      (begin (Run.stepFrom m inputs phase) w).Ends handler (.ok (some s)) v ∧
      (begin (Run.takeSteps m inputs .running k) v).Ends handler (.ok others) w₁ := by
  obtain ⟨r, v, hStep, hRest⟩ := hTaken.of_bind
  -- a step that yields nothing would leave too few states
  cases r with
  | none =>
    cases (hRest.unique (.refl _)).1
    cases hStates
  | some s =>
    obtain ⟨others, v', hOthers, hEnd⟩ := hRest.of_bind
    obtain ⟨hList, rfl⟩ := hEnd.unique (.refl _)
    cases hList
    exact ⟨s, others, v, rfl, Nat.succ.inj hStates, hStep, hOthers⟩

/-- Steps that were taken one at a time are turns that the loop takes. -/
theorem leads_turns {k : Nat} {states : List StateRef}
    (hTaken : (begin (Run.takeSteps m inputs .running k) w).Ends handler (.ok states) w₁)
    (hStates : states.length = k) :
    (begin (Run.nextStep m inputs >>= Run.runOn m inputs) w).Leads handler
      (begin (Run.nextStep m inputs >>= Run.runOn m inputs) w₁) := by
  -- every step that was taken is one turn of the loop
  induction k generalizing w states with
  | zero =>
    obtain ⟨-, rfl⟩ := hTaken.unique (.refl _)
    exact .refl _
  | succ k ih =>
    obtain ⟨s, others, v, rfl, hOthers, hStep, hRest⟩ := ends_takeSteps hTaken hStates
    exact (hStep.bind _).trans ((leads_turn s).trans (ih hRest hOthers))

/-- **A stepper comes to points that a run comes through.** -/
theorem leads_run {k : Nat} {states : List StateRef}
    (hTaken : (begin (Run.takeSteps m inputs .fresh (k + 1)) w).Ends handler (.ok states) w₁)
    (hStates : states.length = k + 1) :
    (begin (Run.run m inputs) w).Leads handler
      (begin (Run.nextStep m inputs >>= Run.runOn m inputs) w₁) := by
  obtain ⟨s, others, v, rfl, hOthers, hStep, hRest⟩ := ends_takeSteps hTaken hStates
  rw [Run.run_eq]
  exact (hStep.bind _).trans ((leads_turn s).trans (leads_turns hRest hOthers))

end Config

-- ---------------------------------------------------------------------------
-- A stepper that nobody uses
-- ---------------------------------------------------------------------------

/-- Whether a primitive operation is about the stepper kept under a name. -/
def Primitive.isAbout {β : Type} (p : Primitive β) (id : String) : Bool :=
  match p with
  | .look (.stepper other) => other == id
  | .keep (.openStepper other _ _) => other == id
  | .keep (.setPhase other _) => other == id
  | _ => false

/-- Whether the next step is about the stepper kept under a name. -/
def Config.uses (id : String) {α : Type} (c : Config α) : Bool :=
  match c.program with
  | .perform p _ => p.isAbout id
  | _ => false

/-- Whether a machine is alive at every moment and the stepper kept under a name is never used. -/
def Config.Spares (handler : Handler) (id : String) (m : MachineRef) {α : Type} (c : Config α) :
    Prop :=
  ∀ n, (c.after .standard handler n).world.alive m = true ∧
    (c.after .standard handler n).uses id = false

/-- Whether one world is like another except that there is a stepper in it, kept under a name. -/
structure World.Beside (id : String) (s : Stepper) (w w' : World) : Prop where
  same : w' = { w with steppers := w'.steppers, pinned := w'.pinned }
  /-- The stepper. -/
  kept : w'.steppers.get? id = some s
  /-- The others are those that there are in both. -/
  steppers : ∀ other ≠ id, w'.steppers.get? other = w.steppers.get? other
  /-- It keeps its machine alive. -/
  pinned : ∀ ref, ref ∈ w'.pinned ↔ ref = s.machine ∨ ref ∈ w.pinned

namespace World.Beside

variable {id : String} {s : Stepper} {w w' : World} (h : World.Beside id s w w')
include h

/-- What changes both worlds alike, and neither steppers nor pins, keeps them beside each other. -/
theorem of_eq {v v' : World} (hSteppers : v.steppers = w.steppers) (hPinned : v.pinned = w.pinned)
    (hSame : v' = { v with steppers := w'.steppers, pinned := w'.pinned }) : Beside id s v v' := by
  subst hSame
  exact
    { same := rfl
      kept := h.kept
      steppers := fun other hOther => by rw [hSteppers]; exact h.steppers other hOther
      pinned := fun ref => by rw [hPinned]; exact h.pinned ref }

theorem machines : w'.machines = w.machines := by rw [h.same]

theorem refText : w'.refText = w.refText := refText_of_machines h.machines

theorem fault : w'.fault = w.fault := by
  funext cause
  rw [World.fault, World.fault, h.refText]

theorem plain : w'.plain = w.plain := by
  funext v
  rw [World.plain, World.plain, h.refText]

/-- As long as the machine of the stepper is there, keeping the stepper keeps no further machine. -/
theorem alive (hAlive : w.alive s.machine = true) (ref : MachineRef) :
    w'.alive ref = w.alive ref := by
  have hBound : w'.bound = w.bound := by rw [h.same]
  have hActive : w'.active = w.active := by rw [h.same]
  -- the stepper holds its own machine, and that one is there anyway
  by_cases hRef : ref = s.machine
  · subst hRef
    have hPinned : w'.pinned.contains s.machine = true :=
      List.contains_iff_mem.mpr ((h.pinned s.machine).mpr (.inl rfl))
    rw [hAlive, World.alive, hPinned, Bool.or_true, Bool.true_or]
  · have hPinned : w'.pinned.contains ref = w.pinned.contains ref := by
      rw [Bool.eq_iff_iff, List.contains_iff_mem, List.contains_iff_mem, h.pinned,
        or_iff_right hRef]
    rw [World.alive, World.alive, hBound, hActive, hPinned]

/-- A change to a machine is a change in both worlds. -/
theorem modifyMachine (m : MachineRef) (f : Machine → Machine) :
    Beside id s (w.modifyMachine m f) (w'.modifyMachine m f) := by
  refine h.of_eq rfl rfl ?_
  rw [h.same]
  rfl

theorem emit (event : Event) : Beside id s (w.emit event) (w'.emit event) := by
  refine h.of_eq rfl rfl ?_
  rw [h.same]
  rfl

/-- An entry is the same entry in both worlds. -/
theorem commit (ref : StateRef) : Beside id s (w.commit ref) (w'.commit ref) := by
  have hDeclares : w'.declares ref = w.declares ref := by rw [h.same]; rfl
  simp only [World.commit, hDeclares]
  split
  · have hEntered := h.modifyMachine ref.machine fun m => m.enter ref.index
    have hState : (w'.modifyMachine ref.machine fun m => m.enter ref.index).state ref =
        (w.modifyMachine ref.machine fun m => m.enter ref.index).state ref := by
      rw [hEntered.same]
      rfl
    rw [hEntered.plain, hState]
    exact hEntered.emit _
  · exact h

/-- A construction has the same outcome in both worlds. -/
theorem construct (table : Value) :
    (w'.construct table).1 = (w.construct table).1 ∧
      Beside id s (w.construct table).2 (w'.construct table).2 := by
  have hStreams : w'.streams = w.streams := by rw [h.same]
  rcases hRead : (readTable w.machines.length table).result w.streams with ⟨cause | m, streams⟩
  · simp only [World.construct, h.machines, hStreams, hRead]
    refine ⟨trivial, h.of_eq rfl rfl ?_⟩
    rw [h.same]
  · simp only [World.construct, h.machines, hStreams, hRead]
    have hBuilt : Beside id s { w with streams, machines := w.machines ++ [m] }
        { w' with streams, machines := w.machines ++ [m] } := by
      refine h.of_eq rfl rfl ?_
      rw [h.same]
    exact ⟨trivial, hBuilt.emit _⟩

/-- Another stepper is opened in both worlds. -/
theorem openStepper {other : String} (hOther : other ≠ id) (m : MachineRef) (inputs : List Value) :
    Beside id s ((Bookkeeping.openStepper other m inputs).apply w)
      ((Bookkeeping.openStepper other m inputs).apply w') where
  same := by
    rw [h.same]
    rfl
  kept := (Bindings.get?_insert_ne _ _ hOther.symm).trans h.kept
  steppers := Bindings.get?_insert_of_agree h.steppers _ _
  pinned ref := by
    simp only [Bookkeeping.apply, List.mem_cons, h.pinned]
    tauto

/-- Another stepper goes on in both worlds. -/
theorem setPhase {other : String} (hOther : other ≠ id) (phase : Stepper.Phase) :
    Beside id s ((Bookkeeping.setPhase other phase).apply w)
      ((Bookkeeping.setPhase other phase).apply w') := by
  simp only [Bookkeeping.apply, h.steppers other hOther]
  -- there is no such stepper in either world, or it is the same one
  cases w.steppers.get? other with
  | none => exact h
  | some t =>
    exact
      { same := by rw [h.same]
        kept := (Bindings.get?_insert_ne _ _ hOther.symm).trans h.kept
        steppers := Bindings.get?_insert_of_agree h.steppers _ _
        pinned := h.pinned }

section

variable (hAlive : w.alive s.machine = true)
include hAlive

theorem whileAlive {α : Type} (ref : StateRef) (a : α) :
    w'.whileAlive ref a = w.whileAlive ref a := by
  have hState : w'.state ref = w.state ref := by rw [h.same]; rfl
  rw [World.whileAlive, World.whileAlive, h.alive hAlive, hState]

/-- What is asked about anything else is answered alike. -/
theorem answer {β : Type} (q : Query β) (hAbout : (Primitive.look q).isAbout id = false) :
    q.answer w' = q.answer w := by
  have hWhileAlive {α : Type} (ref : StateRef) (a : α) := h.whileAlive hAlive ref a
  -- only the kept stepper is seen, and what it holds; the query is about neither
  cases q with
  | write x => exact congrArg (Except.ok ∘ x.text) h.refText
  | alive m => exact congrArg Except.ok (h.alive hAlive m)
  | stepper other => exact congrArg Except.ok (h.steppers other (ne_of_beq_false hAbout))
  | latest ref slot =>
    simp only [Query.answer, World.latest, hWhileAlive]
    rw [h.same]
    rfl
  | slots ref slot =>
    simp only [Query.answer, World.slots, hWhileAlive]
    rw [h.same]
    rfl
  | _ =>
    rw [h.same]
    rfl

/-- Assigning to a slot comes to the same in both. -/
theorem assign (ref : StateRef) (slot : Slot) (v : Value) :
    (w'.update (w'.assign ref slot v)).1 = (w.update (w.assign ref slot v)).1 ∧
      Beside id s (w.update (w.assign ref slot v)).2 (w'.update (w'.assign ref slot v)).2 := by
  have hState : w'.state ref = w.state ref := by rw [h.same]; rfl
  simp only [World.assign, hState, World.whileAlive, h.alive hAlive]
  split
  · exact ⟨rfl, h⟩
  · split
    · refine ⟨rfl, h.of_eq rfl rfl ?_⟩
      rw [h.same]
      rfl
    · exact ⟨rfl, h⟩

/-- **What is done about anything else comes to the same in both.** -/
theorem effect {β : Type} (p : Primitive β) (hAbout : p.isAbout id = false) :
    (p.effect w').1 = (p.effect w).1 ∧ Beside id s (p.effect w).2 (p.effect w').2 := by
  cases p with
  | fail cause => exact ⟨rfl, h⟩
  | look q => exact ⟨h.answer hAlive q hAbout, h⟩
  | commit ref => exact ⟨rfl, h.commit ref⟩
  | reset m => exact ⟨rfl, (h.modifyMachine m Machine.reset).emit _⟩
  | assign ref slot v => exact h.assign hAlive ref slot v
  | assignCurrent m slot v =>
    have hCurrent : w'.current? m = w.current? m := by rw [h.same]; rfl
    simp only [Primitive.effect, World.assignCurrent, hCurrent]
    split
    · exact h.assign hAlive _ slot v
    · exact ⟨rfl, h⟩
  | adjust m a => exact ⟨rfl, h.modifyMachine m a.apply⟩
  | construct table => exact h.construct table
  -- the notes of the program are not about the kept stepper
  | keep b =>
    refine ⟨rfl, ?_⟩
    show Beside id s (b.apply w) (b.apply w')
    cases b with
    | openStepper other m inputs => exact h.openStepper (ne_of_beq_false hAbout) m inputs
    | setPhase other phase => exact h.setPhase (ne_of_beq_false hAbout) phase
    | switching m source target | noTransition m source =>
      simp only [Bookkeeping.apply, h.plain]
      exact h.emit _
    | _ =>
      refine h.of_eq rfl rfl ?_
      rw [h.same]
      rfl
  | read r | nan | stream items =>
    obtain ⟨steppers, pinned, rfl⟩ :
        ∃ steppers pinned, w' = { w with steppers := steppers, pinned := pinned } :=
      ⟨_, _, h.same⟩
    exact ⟨rfl, h.of_eq rfl rfl rfl⟩

end

/-- The phase of the stepper itself is no part of what is alike. -/
theorem setOwnPhase (phase : Stepper.Phase) :
    Beside id { s with phase } w ((Bookkeeping.setPhase id phase).apply w') := by
  simp only [Bookkeeping.apply, h.kept]
  exact
    { same := by rw [h.same]
      kept := Bindings.get?_insert_self _ _ _
      steppers := fun other hOther =>
        (Bindings.get?_insert_ne _ _ hOther).trans (h.steppers other hOther)
      pinned := h.pinned }

end World.Beside

/-- A stepper has just been made. -/
theorem World.beside_openStepper (w : World) (id : String) (m : MachineRef) (inputs : List Value) :
    World.Beside id { machine := m, inputs, phase := .fresh } w
      ((Bookkeeping.openStepper id m inputs).apply w) where
  same := rfl
  kept := Bindings.get?_insert_self _ _ _
  steppers _ hOther := Bindings.get?_insert_ne _ _ hOther
  pinned _ := List.mem_cons

-- ---------------------------------------------------------------------------
-- Executions beside each other
-- ---------------------------------------------------------------------------

namespace Config

variable {handler : Handler} {id : String} {m : MachineRef} {α β : Type}

/-- What an execution spares it spares from any of its moments on. -/
theorem Spares.of_leads {c c' : Config α} (h : c.Spares handler id m)
    (hLeads : c.Leads handler c') : c'.Spares handler id m := by
  obtain ⟨k, rfl⟩ := hLeads
  intro n
  rw [← after_add]
  exact h (k + n)

/-- A first part spares what the whole spares. -/
theorem Spares.of_andThen {c : Config β} {k : β → Program α}
    (h : (c.andThen k).Spares handler id m) : c.Spares handler id m := by
  intro n
  obtain ⟨i, -, hi⟩ := after_andThen c k n
  obtain ⟨hAlive, hUnused⟩ := h i
  rw [hi] at hAlive hUnused
  refine ⟨hAlive, ?_⟩
  generalize c.after .standard handler n = c' at hUnused ⊢
  obtain ⟨p, w⟩ := c'
  cases p with
  | perform p next => exact hUnused
  | ret _ | call _ _ _ | loop _ _ => rfl

theorem Spares.of_bind {x : Run β} {f : β → Run α} {w : World}
    (h : (begin (x >>= f) w).Spares handler id m) : (begin x w).Spares handler id m := by
  rw [begin, Run.run_bind] at h
  exact Spares.of_andThen (c := begin x w) h

variable {s : Stepper} {w w' v : World}

/-- **As long as the machine is alive and the stepper is not used, it makes no difference.** -/
theorem after_beside (c c' : Config α) (hProgram : c'.program = c.program)
    (h : World.Beside id s c.world c'.world) (hSpares : c.Spares handler id s.machine) (n : Nat) :
    (c'.after .standard handler n).program = (c.after .standard handler n).program ∧
      World.Beside id s (c.after .standard handler n).world
        (c'.after .standard handler n).world := by
  induction n generalizing c c' with
  | zero => exact ⟨hProgram, h⟩
  | succ n ih =>
    have hRest {d : Config α} (hNext : c.next .standard handler = some d) :
        d.Spares handler id s.machine := hSpares.of_leads (.of_next hNext)
    obtain ⟨p, w⟩ := c
    obtain ⟨p', w'⟩ := c'
    obtain rfl : p' = p := hProgram
    cases p' with
    | ret a => exact ⟨rfl, h⟩
    | perform op next =>
      -- at each step the machine is there and the stepper is not asked for
      obtain ⟨hAlive, hUnused⟩ := hSpares 0
      obtain ⟨hAnswer, hBeside⟩ := h.effect hAlive op hUnused
      refine ih _ _ ?_ hBeside (hRest rfl)
      show next ((op.effect w').1.mapError w'.fault) = next ((op.effect w).1.mapError w.fault)
      rw [hAnswer, World.Beside.fault h]
    | call f args next => exact ih _ _ rfl (World.Beside.emit h _) (hRest rfl)
    | loop body next => exact ih _ _ rfl h (hRest rfl)

/-- What ends in one world ends in the same way in the other. -/
theorem Ends.beside {p : Program α} {a : α}
    (hEnds : ({ program := p, world := w } : Config α).Ends handler a v)
    (h : World.Beside id s w w')
    (hSpares : ({ program := p, world := w } : Config α).Spares handler id s.machine) :
    ∃ v', ({ program := p, world := w' } : Config α).Ends handler a v' ∧
      World.Beside id s v v' := by
  obtain ⟨n, hn⟩ := hEnds
  obtain ⟨hProgram, hBeside⟩ :=
    after_beside { program := p, world := w } { program := p, world := w' } rfl h hSpares n
  rw [hn] at hProgram hBeside
  exact ⟨_, ⟨n, congrArg (Config.mk · _) hProgram⟩, hBeside⟩

/-- If one of two executions beside each other ends, the other one ends with the same answer. -/
theorem Ends.of_beside {p : Program α} {a : α} {v' : World}
    (hEnds : ({ program := p, world := w' } : Config α).Ends handler a v')
    (h : World.Beside id s w w')
    (hSpares : ({ program := p, world := w } : Config α).Spares handler id s.machine) :
    ∃ v, ({ program := p, world := w } : Config α).Ends handler a v ∧
      World.Beside id s v v' := by
  obtain ⟨n, hn⟩ := hEnds
  obtain ⟨hProgram, hBeside⟩ :=
    after_beside { program := p, world := w } { program := p, world := w' } rfl h hSpares n
  rw [hn] at hProgram hBeside
  exact ⟨_, ⟨n, congrArg (Config.mk · _) hProgram.symm⟩, hBeside⟩

end Config

-- ---------------------------------------------------------------------------
-- Taking steps from a kept stepper
-- ---------------------------------------------------------------------------

namespace Run

/-- Asks a kept stepper for a number of states, one after the other. -/
def advances (id : String) : Nat → Run (List (Option StateRef))
  | 0 => return []
  | k + 1 => do
    let first ← advance id
    let others ← advances id k
    return first :: others

/-- Makes a stepper under a name, asks it for some states, and closes it or leaves it alone. -/
def keepAndTake (id : String) (m : MachineRef) (inputs : List Value) (k : Nat) (closed : Bool) :
    Run (List (Option StateRef)) := do
  keep (.openStepper id m inputs)
  let states ← advances id k
  if closed then close id
  return states

end Run

namespace Config

variable {handler : Handler} {id : String} {m : MachineRef} {inputs : List Value} {w w' w₁ : World}

/-- A stepper that is kept and not executing is found by its name. -/
theorem leads_idleStepper {α : Type} {s : Stepper} (hKept : w.steppers.get? id = some s)
    (hIdle : s.phase ≠ .executing) (f : Stepper → Run α) :
    (begin (Run.idleStepper id >>= f) w).Leads handler (begin (f s) w) := by
  have hAnswer : (Query.stepper id).answer w = .ok (some s) := congrArg Except.ok hKept
  simp only [Run.idleStepper, Run.stepper, bind_assoc]
  refine (leads_look hAnswer _).trans ?_
  simp only [Run.require, pure_bind, if_neg hIdle]
  exact .refl _

/-- A step that was begun is ended with the phase that follows. -/
theorem leads_endStep {α : Type} {s : Stepper} (hKept : w.steppers.get? id = some s)
    (hExecuting : s.phase = .executing) (phase : Stepper.Phase) (f : Unit → Run α) :
    (begin (Run.endStep id phase >>= f) w).Leads handler
      (begin (f ()) ((Bookkeeping.setPhase id phase).apply w)) := by
  have hAnswer : (Query.stepper id).answer w = .ok (some s) := congrArg Except.ok hKept
  simp only [Run.endStep, bind_assoc]
  refine (leads_look hAnswer _).trans ?_
  simp only [Option.any_some, hExecuting, decide_true, if_true]
  exact .of_next (next_act rfl _)

/-- A kept stepper takes the step that it is about to take. -/
theorem ends_advance {phase : Stepper.Phase} {t : StateRef} {v : World}
    (h : World.Beside id { machine := m, inputs, phase } w w')
    (hSpares : (begin (Run.stepFrom m inputs phase) w).Spares handler id m)
    (hStep : (begin (Run.stepFrom m inputs phase) w).Ends handler (.ok (some t)) v) :
    ∃ v', (begin (Run.advance id) w').Ends handler (.ok (some t)) v' ∧
      World.Beside id { machine := m, inputs, phase := .running } v v' := by
  -- a stepper that is executing has no step to take
  have hIdle : phase ≠ .executing := by
    rintro rfl
    cases (hStep.unique (.refl _)).1
  obtain ⟨v', hStep', hBeside⟩ := hStep.beside (h.setOwnPhase .executing) hSpares
  refine ⟨(Bookkeeping.setPhase id .running).apply v', ?_, hBeside.setOwnPhase .running⟩
  refine (leads_idleStepper h.kept hIdle _).trans ?_
  refine (Leads.of_next (next_act rfl _)).trans ((hStep'.outcome _).trans ?_)
  exact leads_endStep hBeside.kept rfl _ _

/-- What a kept stepper did that is asked for more states. -/
theorem ends_advances {k : Nat} {states : List StateRef} {phase : Stepper.Phase}
    (h : World.Beside id { machine := m, inputs, phase } w w')
    (hSpares : (begin (Run.stepFrom m inputs phase >>= Run.runOn m inputs) w).Spares handler id m)
    (hIdle : phase ≠ .executing)
    (hTaken : (begin (Run.takeSteps m inputs phase k) w).Ends handler (.ok states) w₁)
    (hStates : states.length = k) :
    ∃ phase' w₁', phase' ≠ .executing ∧
      (begin (Run.advances id k) w').Ends handler (.ok (states.map some)) w₁' ∧
      World.Beside id { machine := m, inputs, phase := phase' } w₁ w₁' := by
  induction k generalizing w w' states phase with
  | zero =>
    obtain ⟨hList, rfl⟩ := hTaken.unique (.refl _)
    cases hList
    exact ⟨phase, w', hIdle, .refl _, h⟩
  | succ k ih =>
    -- the first step from the phase it is in, and every later one from a running stepper
    obtain ⟨s, others, v, rfl, hOthers, hStep, hRest⟩ := ends_takeSteps hTaken hStates
    obtain ⟨v', hStep', hBeside⟩ := ends_advance h hSpares.of_bind hStep
    have hTurn := hSpares.of_leads ((hStep.bind _).trans (leads_turn s))
    obtain ⟨phase', w₁', hIdle', hRest', hBeside'⟩ :=
      ih hBeside hTurn Stepper.Phase.noConfusion hRest hOthers
    exact ⟨phase', w₁', hIdle', (hStep'.bind _).trans (hRest'.bind _), hBeside'⟩

/-- A kept stepper that is asked for states and then closed or left alone. -/
theorem ends_keepAndTake {k : Nat} {states : List StateRef}
    (hSpares : (begin (Run.run m inputs) w).Spares handler id m)
    (hTaken : (begin (Run.takeSteps m inputs .fresh k) w).Ends handler (.ok states) w₁)
    (hStates : states.length = k) (closed : Bool) :
    ∃ phase w₁', (begin (Run.keepAndTake id m inputs k closed) w).Ends handler
        (.ok (states.map some)) w₁' ∧
      World.Beside id { machine := m, inputs, phase } w₁ w₁' := by
  rw [Run.run_eq] at hSpares
  obtain ⟨phase, w₁', hIdle, hTaken', hBeside⟩ :=
    ends_advances (w.beside_openStepper id m inputs) hSpares Stepper.Phase.noConfusion hTaken
      hStates
  have hOpen : (begin (Run.keepAndTake id m inputs k closed) w).Leads handler _ :=
    (Leads.of_next (next_act rfl _)).trans (hTaken'.bind _)
  -- a stepper that is closed is finished, one that is not stays as its last step left it
  cases closed with
  | false => exact ⟨phase, w₁', hOpen, hBeside⟩
  | true =>
    refine ⟨.finished, _, hOpen.trans ?_, hBeside.setOwnPhase .finished⟩
    simp only [Run.close, bind_assoc, if_true]
    exact (leads_idleStepper hBeside.kept hIdle _).trans (.of_next (next_act rfl _))

-- ---------------------------------------------------------------------------
-- Going on
-- ---------------------------------------------------------------------------

/-- **Stopping a run and going on loses nothing.** A machine is run one state at a time, until at
least one state has been entered, and has a current state by then. A run that begins there ends
exactly as a run from the beginning does: with the same answer or failure, and in the same world,
log and all. If the stepper was kept under a name, the world is the same but for the stepper. -/
theorem resume {k : Nat} {states : List StateRef} (hk : 1 ≤ k)
    (hTaken : (begin (Run.takeSteps m inputs .fresh k) w).Ends handler (.ok states) w₁)
    (hStates : states.length = k) (hCurrent : w₁.current? m ≠ none) :
    (∀ r w₂, (begin (Run.run m inputs) w₁).Ends handler r w₂ ↔
      (begin (Run.run m inputs) w).Ends handler r w₂) ∧
    ∀ id closed, (begin (Run.run m inputs) w).Spares handler id m →
      ∃ phase w₁', (begin (Run.keepAndTake id m inputs k closed) w).Ends handler
          (.ok (states.map some)) w₁' ∧
        let s : Stepper := { machine := m, inputs, phase }
        (∀ r w₂, (begin (Run.run m inputs) w).Ends handler r w₂ →
          ∃ w₂', (begin (Run.run m inputs) w₁').Ends handler r w₂' ∧
            World.Beside id s w₂ w₂') ∧
        ∀ r w₂', (begin (Run.run m inputs) w₁').Ends handler r w₂' →
          ∃ w₂, (begin (Run.run m inputs) w).Ends handler r w₂ ∧
            World.Beside id s w₂ w₂' := by
  obtain ⟨k, rfl⟩ := Nat.exists_eq_add_of_le' hk
  obtain ⟨t, ht⟩ := Option.ne_none_iff_exists'.mp hCurrent
  -- both runs come to a turn of the loop in the world that the stepper has left
  have hFirst := leads_run hTaken hStates
  have hSecond : (begin (Run.run m inputs) w₁).Leads handler _ := leads_run_of_current ht
  refine ⟨fun r w₂ => by rw [hFirst.ends_iff, hSecond.ends_iff], fun id closed hSpares => ?_⟩
  obtain ⟨phase, w₁', hTaken', hBeside⟩ := ends_keepAndTake hSpares hTaken hStates closed
  have ht' : w₁'.current? m = some t := by
    rw [← ht, hBeside.same]
    rfl
  have hThird : (begin (Run.run m inputs) w₁').Leads handler _ := leads_run_of_current ht'
  have hTurn := hSpares.of_leads hFirst
  refine ⟨phase, w₁', hTaken', fun r w₂ hEnds => ?_, fun r w₂' hEnds => ?_⟩
  · rw [hFirst.ends_iff] at hEnds
    obtain ⟨w₂', hEnds', hBeside'⟩ := hEnds.beside hBeside hTurn
    exact ⟨w₂', hThird.ends_iff.mpr hEnds', hBeside'⟩
  · rw [hThird.ends_iff] at hEnds
    obtain ⟨w₂, hEnds', hBeside'⟩ := hEnds.of_beside hBeside hTurn
    exact ⟨w₂, hFirst.ends_iff.mpr hEnds', hBeside'⟩

/-- It is enough to look at the moments up to the end. -/
theorem Spares.of_le {α : Type} {c : Config α} (last : Nat)
    (hEnd : (c.after .standard handler last).answer?.isSome = true)
    (h : ∀ n ≤ last, (c.after .standard handler n).world.alive m = true ∧
      (c.after .standard handler n).uses id = false) : c.Spares handler id m := by
  intro n
  rcases Nat.le_total n last with hLe | hLe
  · exact h n hLe
  · rw [after_of_ended hEnd hLe]
    exact h last (Nat.le_refl last)

/-- Two states that follow each other. -/
def pendulum : Value :=
  .map
    [(.text "left", .map [(.text "rules", .map [(.text "right", .bool true)])]),
      (.text "right", .map [(.text "rules", .map [(.text "left", .bool true)])])]

/-- The machine is done once it has swung three times. -/
def counting : Handler := fun _ _ => do
  let history ← Run.look (.history 0)
  return .bool (decide (4 ≤ history.length))

/-- Builds the pendulum and binds it to a name. -/
def hangPendulum : Run Unit := do
  let m ← Run.build pendulum none
  Run.setDone m (.function "enough")
  Run.keep (.bind "m" m)

/-- A pendulum that is stopped after one swing and goes on comes to rest as if it had not been
stopped. -/
theorem resume_pendulum :
    let left : StateRef := { machine := 0, index := 0 }
    let right : StateRef := { machine := 0, index := 1 }
    let w := ((start (ExceptT.run hangPendulum)).after .standard counting 5).world
    ∃ w₁, (begin (Run.takeSteps 0 [] .fresh 2) w).Ends counting (.ok [left, right]) w₁ ∧
      ∃ w₂, (begin (Run.run 0 []) w₁).Ends counting (.ok (some right)) w₂ ∧
        (begin (Run.run 0 []) w).Ends counting (.ok (some right)) w₂ ∧
        (begin (Run.run 0 []) w).Spares counting "g" 0 ∧
        ∃ w₁' w₂', (begin (Run.keepAndTake "g" 0 [] 2 true) w).Ends counting
            (.ok [some left, some right]) w₁' ∧
          (begin (Run.run 0 []) w₁').Ends counting (.ok (some right)) w₂' ∧
          w₂'.log = w₂.log ∧ w₂'.machines = w₂.machines := by
  intro left right w
  have hTaken : (begin (Run.takeSteps 0 [] .fresh 2) w).Ends counting (.ok [left, right]) _ :=
    .of_toOption (n := 20) (by decide +kernel)
  have hCurrent : ((begin (Run.takeSteps 0 [] .fresh 2) w).after .standard counting
      20).world.current? 0 ≠ none := by decide +kernel
  have hRun : (begin (Run.run 0 []) w).Ends counting (.ok (some right)) _ :=
    .of_toOption (n := 56) (by decide +kernel)
  have hSpares : (begin (Run.run 0 []) w).Spares counting "g" 0 :=
    .of_le 56 (by decide +kernel) (by decide +kernel)
  obtain ⟨hSame, hKept⟩ := resume (by decide) hTaken rfl hCurrent
  obtain ⟨phase, w₁', hTaken', hEnds, -⟩ := hKept "g" true hSpares
  obtain ⟨w₂', hRun', hBeside⟩ := hEnds _ _ hRun
  refine ⟨_, hTaken, _, (hSame _ _).mpr hRun, hRun, hSpares, w₁', w₂', hTaken', hRun', ?_, ?_⟩
  · rw [hBeside.same]
  · exact hBeside.machines

end Config

end RuleMachine
