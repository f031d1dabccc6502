import RuleMachine.Proofs.Renaming.Sessions
import RuleMachine.Proofs.Resuming

/-!
# Running again after a reset

A reset forgets everything that running a machine leaves behind. What is done with a machine that
has not been started can be done again after a reset, and it comes to the same: the same answers and
failures, the same calls and records, and in the end the same history, notes and current state.

NaNs and streams are objects of their own, and those that are made the second time are not those
that were made the first time. So the two runs are the same up to a renaming of the NaNs and streams
that they made; what there was before keeps its number.

This takes that the script keeps to its machine: what it does to others, to names and to steppers is
there to stay, and so is what it sets that a reset does not set back. Streams that were kept from
before it may not use, as they can be read only once.

Main statements: `Config.build_fresh`, a machine that was just built is one that has not been
started; and `Session.rerun`, for every script, every table and whatever functions do.
-/

namespace RuleMachine

-- ---------------------------------------------------------------------------
-- What a reset leaves
-- ---------------------------------------------------------------------------

/-- Whether a machine is as if it had just been built: it has not been used and has no notes. -/
structure Machine.Fresh (m : Machine) : Prop extends Machine.Unused m where
  notes : m.notes = []

namespace Machine

/-- A reset leaves the table as it was declared, and the options. -/
theorem reset_eq (m : Machine) :
    m.reset = { ofStates m.declared with done := m.done, strict := m.strict } := rfl

@[simp] theorem reset_reset (m : Machine) : m.reset.reset = m.reset := by
  rw [reset_eq m.reset, declared_reset]
  rfl

/-- A reset forgets an entry. -/
@[simp] theorem reset_enter (m : Machine) (index : Nat) : (m.enter index).reset = m.reset := by
  have hOptions : (m.enter index).done = m.done ∧ (m.enter index).strict = m.strict := by
    unfold enter
    split <;> exact ⟨rfl, rfl⟩
  rw [reset_eq, declared_enter, hOptions.1, hOptions.2, reset_eq]

/-- A reset forgets an assignment, together with the visit that holds it. -/
@[simp] theorem reset_setSlot (m : Machine) (index : Nat) (slot : Slot) (v : Value) :
    (m.setSlot index slot v).reset = m.reset := by
  have hOptions : (m.setSlot index slot v).done = m.done ∧
      (m.setSlot index slot v).strict = m.strict := by
    unfold setSlot
    split <;> exact ⟨rfl, rfl⟩
  rw [reset_eq, declared_setSlot, hOptions.1, hOptions.2, reset_eq]

/-- There is nothing to reset in a fresh machine. -/
theorem Fresh.reset {m : Machine} (h : m.Fresh) : m.reset = m := by
  have hStates : m.states.map (fun s => { s with visits := [] }) = m.states := by
    refine List.ext_getElem (List.length_map _) fun i hi hi' => ?_
    have hVisits := h.visits i
    rw [state, List.getElem?_eq_getElem hi', Option.getD_some] at hVisits
    rw [List.getElem_map]
    exact congrArg (fun visits => { m.states[i] with visits }) hVisits.symm
  -- all that a reset clears is empty already, and the two settings it leaves alone
  obtain ⟨states, current, history, notes, done, strict⟩ := m
  obtain rfl : current = none := h.current
  obtain rfl : history = [] := h.history
  obtain rfl : notes = [] := h.notes
  exact congrArg (fun states => Machine.mk states none [] [] done strict) hStates

end Machine

/-- Whether an adjustment is to the notes, and not to an option. -/
def Adjustment.isNote : Adjustment → Bool
  | note _ _ | eraseNote _ => true
  | strict _ | done _ => false

/-- A reset forgets a note; the mode and the condition it would keep. -/
theorem Adjustment.reset_apply {a : Adjustment} (h : a.isNote = true) (m : Machine) :
    (a.apply m).reset = m.reset := by
  cases a with
  | note key v | eraseNote key => rfl
  | strict b | done p => cases h

-- ---------------------------------------------------------------------------
-- Keeping to a machine
-- ---------------------------------------------------------------------------

/-- Whether keeping books leaves names and steppers alone. -/
def Bookkeeping.isPassing : Bookkeeping → Bool
  | activate _ | release | switching _ _ _ | noTransition _ _ | performed _ _ => true
  | bind _ _ | unbind _ | hold _ _ | openStepper _ _ _ | setPhase _ _ => false

/-- Whether a primitive operation keeps to a machine: it builds none and changes no other, sets no
option of the machine, and leaves names and steppers alone. -/
def Primitive.keepsTo {β : Type} (p : Primitive β) (m : MachineRef) : Bool :=
  match p with
  | .fail _ | .look _ | .read _ | .nan | .stream _ => true
  | .commit s | .assign s _ _ => s.machine == m
  | .reset other | .assignCurrent other _ _ => other == m
  | .adjust other a => other == m && a.isNote
  | .construct _ => false
  | .keep b => b.isPassing

/-- Whether the next step keeps to a machine. -/
def Config.keepsTo (m : MachineRef) {α : Type} (c : Config α) : Bool :=
  match c.program with
  | .perform p _ => p.keepsTo m
  | _ => true

/-- Whether everything that happens keeps to a machine, in the bodies of functions as well, and no
stream is used that was kept from before, not even as the name of a state: the items that are taken
from it would be missing the next time. -/
structure Config.KeepsTo (handler : Handler) (m : MachineRef) {α : Type} (c : Config α) :
    Prop where
  machine : ∀ n, (c.after .standard handler n).keepsTo m = true
  streams : ∀ n, ∀ id < c.world.streams.left.length,
    (c.after .standard handler n).world.streams.left[id]? = c.world.streams.left[id]?

/-- What has been kept to a machine: of the others and of the names nothing has changed, and a reset
would leave of the machine what it would have left of it before. -/
structure World.KeptTo (m : MachineRef) (w w' : World) : Prop where
  length : w'.machines.length = w.machines.length
  others : ∀ ref ≠ m, w'.machine ref = w.machine ref
  reset : (w'.machine m).reset = (w.machine m).reset
  bound : w'.bound = w.bound
  pinned : w'.pinned = w.pinned
  held : w'.held = w.held
  steppers : w'.steppers = w.steppers

namespace World.KeptTo

variable {m : MachineRef} {w w' w'' : World}

/-- A world in which nothing happened has kept to every machine. -/
theorem refl (m : MachineRef) (w : World) : KeptTo m w w where
  length := rfl
  others _ _ := rfl
  reset := rfl
  bound := rfl
  pinned := rfl
  held := rfl
  steppers := rfl

/-- Keeping to a machine twice is keeping to it. -/
theorem trans (h : KeptTo m w w') (h' : KeptTo m w' w'') : KeptTo m w w'' where
  length := h'.length.trans h.length
  others ref hRef := (h'.others ref hRef).trans (h.others ref hRef)
  reset := h'.reset.trans h.reset
  bound := h'.bound.trans h.bound
  pinned := h'.pinned.trans h.pinned
  held := h'.held.trans h.held
  steppers := h'.steppers.trans h.steppers

/-- A change that a reset of the machine takes back keeps to the machine. -/
theorem modifyMachine (w : World) (m : MachineRef) {f : Machine → Machine}
    (hf : ∀ machine : Machine, (f machine).reset = machine.reset) :
    KeptTo m w (w.modifyMachine m f) :=
  { refl m w with
    length := List.length_modify ..
    others := fun ref hRef => machine_modifyMachine_ne w f hRef.symm
    reset := by
      rw [machine_modifyMachine]
      split
      · exact hf _
      · rfl }

/-- An assignment to a state of the machine keeps to it. -/
theorem assign (w : World) (s : StateRef) (slot : Slot) (v : Value) :
    KeptTo s.machine w (w.update (w.assign s slot v)).2 := by
  rcases w.update_assign s slot v with hSame | hPut
  · rw [hSame]
    exact .refl _ w
  · rw [hPut]
    exact modifyMachine w s.machine fun machine => machine.reset_setSlot s.index slot v

/-- What one operation does that keeps to a machine. -/
theorem effect {β : Type} {p : Primitive β} (h : p.keepsTo m = true) (w : World) :
    KeptTo m w (p.effect w).2 := by
  cases p with
  | fail | look | read | nan | stream => exact { refl m w with }
  | commit s =>
    obtain rfl : s.machine = m := beq_iff_eq.mp h
    simp only [Primitive.effect, World.commit]
    split
    · have hEntered := modifyMachine w s.machine fun machine => machine.reset_enter s.index
      exact { hEntered with }
    · exact .refl _ w
  | reset other =>
    obtain rfl : other = m := beq_iff_eq.mp h
    have hReset := modifyMachine w other Machine.reset_reset
    exact { hReset with }
  | assign s slot v =>
    obtain rfl : s.machine = m := beq_iff_eq.mp h
    exact assign w s slot v
  | assignCurrent other slot v =>
    obtain rfl : other = m := beq_iff_eq.mp h
    simp only [Primitive.effect, World.assignCurrent, World.current?]
    cases (w.machine other).current with
    | some index => exact assign w { machine := other, index } slot v
    | none => exact .refl _ w
  | adjust other a =>
    obtain ⟨hOther, hNote⟩ := Bool.and_eq_true_iff.mp h
    obtain rfl : other = m := beq_iff_eq.mp hOther
    exact modifyMachine w other (a.reset_apply hNote)
  | construct table => cases h
  -- only what a reset cannot take back is excluded: bindings, steppers and machines that are held
  | keep b =>
    cases b with
    | bind | unbind | hold | openStepper | setPhase => cases h
    | _ => exact { refl m w with }

end World.KeptTo

namespace Config

variable {handler : Handler} {m : MachineRef} {α : Type}

/-- **What keeps to a machine leaves everything else alone.** -/
theorem KeepsTo.after {c : Config α} (h : c.KeepsTo handler m) (n : Nat) :
    World.KeptTo m c.world (c.after .standard handler n).world := by
  induction n with
  | zero => exact .refl m c.world
  | succ n ih =>
    refine ih.trans ?_
    rw [after_succ]
    cases hNext : (c.after .standard handler n).next .standard handler with
    | none => exact .refl _ _
    | some c' =>
      show World.KeptTo m (c.after .standard handler n).world c'.world
      -- a step loops, calls a function, or performs a primitive that keeps to the machine
      rcases world_of_next hNext with hWorld | ⟨f, args, hWorld⟩ | ⟨β, p, next, hProgram, hWorld⟩
      · rw [hWorld]
        exact .refl _ _
      · rw [hWorld]
        exact { World.KeptTo.refl m _ with }
      · have hKeeps : p.keepsTo m = true := by simpa only [keepsTo, hProgram] using h.machine n
        rw [hWorld]
        exact .effect hKeeps _

/-- It is enough to look at the moments up to the end. -/
theorem KeepsTo.of_le {c : Config α} (last : Nat)
    (hEnd : (c.after .standard handler last).answer?.isSome = true)
    (h : ∀ n ≤ last, (c.after .standard handler n).keepsTo m = true)
    (hStreams : c.world.streams.left.length = 0) : c.KeepsTo handler m where
  machine n := by
    rcases Nat.le_total n last with hLe | hLe
    · exact h n hLe
    · rw [after_of_ended hEnd hLe]
      exact h last (Nat.le_refl last)
  streams n id hId := absurd hId (by omega)

end Config

-- ---------------------------------------------------------------------------
-- A machine that was just built
-- ---------------------------------------------------------------------------

/-- The machine that a table has built is fresh. -/
theorem World.fresh_construct {w w' : World} {table : Value} {m : MachineRef}
    (h : w.construct table = (.ok m, w')) : (w'.machine m).Fresh := by
  rcases hRead : (readTable w.machines.length table).result w.streams with ⟨cause | built, t⟩
  · simp only [construct, hRead, Prod.mk.injEq] at h
    cases h.1
  · simp only [construct, hRead, Prod.mk.injEq] at h
    obtain ⟨hRef, rfl⟩ := h
    obtain rfl := Except.ok.inj hRef
    have hBuilt : built.Fresh := ⟨(readTable_fresh hRead).2, readTable_notes hRead⟩
    show ((w.machines ++ [built])[w.machines.length]?.getD default).Fresh
    rwa [List.getElem?_concat_length]

/-- Options make no machine less fresh. -/
theorem Machine.Fresh.adjust {w w' : World} {m : MachineRef} {a : Adjustment}
    (h : (w.machine m).Fresh) (ha : a.isNote = false)
    (hEffect : (Primitive.adjust m a).effect w = (.ok (), w')) : (w'.machine m).Fresh := by
  obtain rfl : w.modifyMachine m a.apply = w' := (Prod.ext_iff.mp hEffect).2
  rw [World.machine_modifyMachine]
  split
  · cases a with
    | strict b | done p => exact { h with }
    | note key v | eraseNote key => cases ha
  · exact h

namespace Config

variable {handler : Handler} {m : MachineRef} {w w' : World}

/-- **A machine that was just built and not started is fresh,** whatever its table and options. -/
theorem build_fresh {table : Value} {options : Option Options}
    (hStart : ∀ o ∈ options, o.start = false)
    (h : (begin (Run.build table options) w).Ends handler (.ok m) w') : (w'.machine m).Fresh := by
  obtain ⟨m', v, hBuilt, hRest⟩ := h.of_bind
  have hNew : (v.machine m').Fresh := World.fresh_construct hBuilt.of_act
  cases options with
  | none =>
    obtain ⟨hRef, rfl⟩ := hRest.unique (.refl _)
    obtain rfl := Except.ok.inj hRef
    exact hNew
  | some o =>
    obtain ⟨_, v', hConfigured, hEnd⟩ := hRest.of_bind
    obtain ⟨hRef, rfl⟩ := hEnd.unique (.refl _)
    obtain rfl := Except.ok.inj hRef
    obtain ⟨u, hConfigure, rfl⟩ := hConfigured.of_keeping
    obtain ⟨_, u₁, hStrict, hRest⟩ := hConfigure.of_bind
    obtain ⟨_, u₂, hDone, hRest⟩ := hRest.of_bind
    -- the options set the mode and the condition; a start would have made a visit
    rw [hStart o rfl] at hRest
    obtain rfl := (hRest.unique (.refl _)).2
    have hInUse : (({ v with active := m :: v.active } : World).machine m).Fresh := hNew
    have hSet := (hInUse.adjust rfl hStrict.of_act).adjust rfl hDone.of_act
    exact hSet

end Config

-- ---------------------------------------------------------------------------
-- The world after a reset
-- ---------------------------------------------------------------------------

namespace World

variable {m : MachineRef} {w w' : World}

/-- A second reset only makes another record. -/
theorem reset_reset (w : World) (m : MachineRef) :
    (w.reset m).reset m = (w.reset m).record m .reset := by
  have hMachines : (w.machines.modify m Machine.reset).modify m Machine.reset =
      w.machines.modify m Machine.reset := by
    rw [List.modify_modify_eq]
    exact congrArg (w.machines.modify m) (funext fun machine => machine.reset_reset)
  exact congrArg (fun machines => ({ w.reset m with machines } : World).record m .reset) hMachines

/-- Worlds with the same number of machines, and the same ones, have the same list of them. -/
theorem machines_ext (hLength : w'.machines.length = w.machines.length)
    (hMachine : ∀ ref, w'.machine ref = w.machine ref) : w'.machines = w.machines := by
  refine List.ext_getElem hLength fun ref h' h => ?_
  have hSame := hMachine ref
  rwa [machine, machine, List.getElem?_eq_getElem h', List.getElem?_eq_getElem h] at hSame

/-- A reset brings back the machines that there were. -/
theorem KeptTo.machines_reset (h : KeptTo m w w')
    (hFresh : (w.machine m).reset = w.machine m) : (w'.reset m).machines = w.machines := by
  refine machines_ext ((List.length_modify ..).trans h.length) fun ref => ?_
  show (w'.modifyMachine m Machine.reset).machine ref = w.machine ref
  rw [machine_modifyMachine]
  -- the machine that is reset is as it was, and no other one was touched
  split
  · rename_i hRef
    rw [h.reset, hFresh, hRef.1]
  · rename_i hRef
    by_cases hOther : ref = m
    · subst hOther
      have hBeyond : w'.machines.length ≤ ref := Nat.not_lt.mp fun hLt => hRef ⟨rfl, hLt⟩
      rw [machine_of_le hBeyond, machine_of_le (h.length ▸ hBeyond)]
    · exact h.others ref hOther

/-- **After a reset the world is what it was,** but for the numbers of the NaNs and streams that
were made in the meantime. -/
theorem KeptTo.renamed (h : KeptTo m w w')
    (hFresh : (w.machine m).reset = w.machine m) (hActive : w'.active = w.active)
    (hGrows : w.supply ≤ w'.supply)
    (hStreams : ∀ id < w.streams.left.length, w'.streams.left[id]? = w.streams.left[id]?)
    (last : Supply)
    (hSelf : Renamed (Renaming.inside_identity hGrows).onward w.supply w.log.toList w.log.toList w
      w) :
    Renamed (Renaming.inside_identity hGrows).onward last w.log.toList (w'.reset m).log.toList w
      (w'.reset m) := by
  have hInside := Renaming.inside_identity hGrows
  have hShifts : hInside.onward.Shifts w.supply w'.supply last := hInside.onward_shifts last
  -- streams from before are where they were, and those made since are beyond both worlds
  have hLeft (id : Nat) : w'.streams.left[hInside.onward .stream id]? =
      w.streams.left[hInside.onward .stream id]? := by
    by_cases hId : id < w.supply .stream
    · rw [hInside.onward_of_lt hId]
      exact hStreams id hId
    · have hBeyond : w'.supply .stream ≤ hInside.onward .stream id :=
        hInside.extends_onward.beyond .stream id (Nat.not_lt.mp hId)
      rw [List.getElem?_eq_none hBeyond,
        List.getElem?_eq_none (Nat.le_trans (hGrows .stream) hBeyond)]
  have hMachines := h.machines_reset hFresh
  exact
    { machines :=
        { get := fun n => by rw [hMachines, hSelf.machines.get]
          next := fun k hk => (hShifts .machine k hk).trans
            (congrArg (· + k) (h.length.trans (congrArg List.length hMachines).symm)) }
      bound := h.bound.trans hSelf.bound
      pinned := h.pinned.trans hSelf.pinned
      active := hActive.trans hSelf.active
      held := h.held.trans hSelf.held
      steppers := h.steppers.trans hSelf.steppers
      streams := ⟨fun id => (hLeft id).trans (hSelf.streams.get id), hShifts .stream⟩
      nans := hShifts .nan
      log := ⟨[], (List.append_nil _).symm, (List.append_nil _).symm⟩ }

end World

-- ---------------------------------------------------------------------------
-- Running again
-- ---------------------------------------------------------------------------

/-- Whether there is no NaN and no stream in a value, and so no number that could be changed where
machines keep theirs. -/
def Value.Unnumbered (v : Value) : Prop :=
  ∀ ρ : Renaming, (∀ m, ρ .machine m = m) → v.rename ρ = v

/-- Whether the constants in an instruction are unnumbered. NaNs and streams in it are then made as
it is performed. -/
def Instruction.Unnumbered (i : Instruction) : Prop := ∀ v ∈ i.constants, v.Unnumbered

/-- Whether the constants in all functions are unnumbered. -/
def Functions.Unnumbered (functions : Functions) : Prop :=
  ∀ name, ∀ v ∈ (functions name).constants, v.Unnumbered

/-- If machines keep their numbers, nothing has to be known of them. -/
theorem Renaming.scope_any {ρ : Renaming} (h : ∀ m, ρ .machine m = m) (last : Supply) :
    ρ.Scope last fun _ => True where
  home _ := .rfl
  new _ _ := trivial
  apart := .inr h

/-- An unnumbered value is the same in both runs when machines keep their numbers. -/
theorem Value.Unnumbered.fixed {v : Value} (h : v.Unnumbered) {ρ : Renaming}
    (hMachines : ∀ m, ρ .machine m = m) : v.Fixed ρ fun _ => True :=
  ⟨h ρ hMachines, v.within_any fun _ => trivial⟩

namespace Session

variable {functions : Functions} {limit : Nat} {w : World} {m : MachineRef}

/-- An instruction to reset a machine does just that. -/
theorem step_reset {i : Instruction} {id : String} {s : Step} (hMachine : i.machine = some id)
    (hCommand : i.command = .onMachine .reset) (hBound : w.bound.get? id = some m)
    (h : step functions limit w i = some s) :
    s.outcome = .ok Run.noAnswer ∧ s.world = w.reset m := by
  have hAnswer : (Query.bound id).answer w = .ok (some m) := by rw [Query.answer, hBound]
  have hEnds : (Config.begin (Run.perform Frame.outermost i) w).Ends functions.handler
      (.ok Run.noAnswer) (w.reset m) := by
    obtain ⟨label, command, machine, guard, attempt⟩ := i
    obtain rfl : machine = some id := hMachine
    obtain rfl : command = .onMachine .reset := hCommand
    have hReset : (Config.begin (Run.performOn .outermost m .reset)
        { w with active := m :: w.active }).Ends functions.handler (.ok Run.noAnswer)
        (({ w with active := m :: w.active } : World).reset m) :=
      .of_next (Config.next_act rfl _)
    simp only [Run.perform, Frame.machine, bind_assoc]
    refine (Config.leads_look hAnswer _).trans ?_
    refine (Config.Leads.of_next (Config.next_act rfl _)).trans ?_
    refine (hReset.outcome _).trans ?_
    exact .of_next (Config.next_act rfl _)
  exact (step_ends h).unique hEnds

/-- **A script runs again after a reset as it ran before.** A session has come to a world in which a
machine has not been used. A script is run that keeps to this machine, the machine is reset, and the
script is run again. Then the second run ends as well, each instruction has the same outcome in both
and leaves the same entries in the log, and the machine is the same in the end: its history, its
notes, its current state and the visits to each state. NaNs and streams that were made in the first
run are others in the second, and nothing else is. A second reset of any machine changes nothing. -/
theorem rerun {setup script : List Instruction} {before first : List Step} {w₁ : World}
    {i : Instruction} {id : String} {reset : Step} (hFunctions : functions.Unnumbered)
    (hSetup : ∀ i ∈ setup, i.Unnumbered) (hScript : ∀ i ∈ script, i.Unnumbered)
    (hBefore : runFrom functions limit .empty setup = some before)
    (hw : lastWorld .empty before = w) (hFresh : (w.machine m).Fresh)
    (hFirst : runFrom functions limit w script = some first) (hw₁ : lastWorld w first = w₁)
    (hKeeps : ({ program := program script, world := w } : Config _).KeepsTo functions.handler m)
    (hMachine : i.machine = some id) (hBound : w.bound.get? id = some m)
    (hCommand : i.command = .onMachine .reset) (hReset : step functions limit w₁ i = some reset) :
    (∃ (ρ : Renaming) (again : List Step),
      (∀ tag < w.nans, ρ .nan tag = tag) ∧ (∀ id < w.streams.left.length, ρ .stream id = id) ∧
      (∀ ref, ρ .machine ref = ref) ∧
      runFrom functions limit reset.world script = some again ∧
      List.Forall₂ (Step.Renamed ρ) first again ∧
      (lastWorld reset.world again).machine m = (w₁.machine m).rename ρ) ∧
    ∀ v : World, (v.reset m).reset m = (v.reset m).record m .reset := by
  refine ⟨?_, fun v => v.reset_reset m⟩
  -- what the first run leaves alone
  obtain ⟨n, hn⟩ := runFrom_ends hFirst
  have hKept := hKeeps.after n
  have hStreams := hKeeps.streams n
  rw [hn, hw₁] at hKept hStreams
  obtain ⟨-, hWorld⟩ := step_reset hMachine hCommand (hKept.bound ▸ hBound) hReset
  obtain ⟨hGrows, hActive⟩ := runFrom_tidy hFirst
  rw [hw₁] at hGrows hActive
  -- what there was keeps its number, and what was made since has other ones the second time
  have hInside := Renaming.inside_identity hGrows
  have hOld : hInside.onward.Keeps w.supply := fun _ _ hn => hInside.onward_of_lt hn
  have hLength : w.supply .machine = w₁.supply .machine := hKept.length.symm
  have hMachines (ref : MachineRef) : hInside.onward .machine ref = ref :=
    Renaming.onward_identity_of_eq hGrows hLength ref
  have hScope (last : Supply) := Renaming.scope_any hMachines last
  have hFixed (name : FunctionName) (v : Value) (hv : v ∈ (functions name).constants) :=
    (hFunctions name v hv).fixed hMachines
  -- what there was mentions no number that is changed
  have hSelf := renamed_self (hScope w.supply) hFixed
    (fun i hi v hv => (hSetup i hi v hv).fixed hMachines) hBefore hOld (by rw [hw])
  rw [hw] at hSelf
  -- so the script begins a second time where it began, but for the numbers
  have hRenamed := hKept.renamed hFresh.reset hActive hGrows hStreams w₁.supply hSelf
  obtain ⟨-, hSame⟩ := runFrom_renamed (hScope w₁.supply) hFixed
    (fun i hi v hv => (hScript i hi v hv).fixed hMachines)
    (World.Within.of_any (fun _ => trivial) w) hFirst (by rw [hw₁])
  obtain ⟨again, hAgain, hSteps, hEnd⟩ := hSame hRenamed
  rw [hWorld]
  refine ⟨hInside.onward, again, fun _ => hOld .nan _, fun _ => hOld .stream _, hMachines, hAgain,
    hSteps, ?_⟩
  have hMachine := hEnd.machine m
  rwa [hMachines, hw₁] at hMachine

-- ---------------------------------------------------------------------------
-- A pendulum that swings again
-- ---------------------------------------------------------------------------

/-- The pendulum is done once it has swung. -/
def swinging : Functions
  | "enough" =>
    { body := []
      result := .apply .less [.constant (.int 2), .apply .stackLength []] }
  | _ => .empty

/-- Builds the pendulum. -/
def hanging : Instruction :=
  .plain (some "m") (.build (.constant Config.pendulum)
    (some { start := none, done := some (.constant (.function "enough")), strict := none }))

/-- Lets the pendulum swing, puts a new NaN into a slot, and asks for a state that there is not. -/
def swings : List Instruction :=
  [.run [], .assignCurrent .result .nan, .setState (.constant (.text "up"))].map fun command =>
    .plain (some "m") (.onMachine command)

/-- The functions of the pendulum are written with texts and machines only. -/
theorem swinging_unnumbered : swinging.Unnumbered := by
  intro name v hv ρ _
  unfold swinging at hv
  split at hv
  · obtain rfl : v = .int 2 := List.mem_singleton.mp hv
    rfl
  · obtain rfl : v = .null := List.mem_singleton.mp hv
    rfl

/-- What comes of building the pendulum. -/
def hung : List Step := stepsOf swinging .empty [hanging]

/-- What comes of letting it swing. -/
def swung : List Step := stepsOf swinging (lastWorld .empty hung) swings

/-- A pendulum that has swung and is reset swings again, is told the same, and fails alike. -/
theorem rerun_pendulum :
    let w := lastWorld .empty hung
    let w₁ := lastWorld w swung
    runFrom swinging 100 .empty [hanging] = some hung ∧
    runFrom swinging 100 w swings = some swung ∧
    ∃ (ρ : Renaming) (again : List Step) (reset : Step),
      step swinging 100 w₁ (.plain (some "m") (.onMachine .reset)) = some reset ∧
      runFrom swinging 100 reset.world swings = some again ∧
      List.Forall₂ (Step.Renamed ρ) swung again ∧
      (lastWorld reset.world again).machine 0 = (w₁.machine 0).rename ρ := by
  intro w w₁
  have hSetup : ∀ i ∈ [hanging], i.Unnumbered := by
    intro i hi v hv ρ _
    obtain rfl := List.mem_singleton.mp hi
    have hConstants : hanging.constants = [Config.pendulum, .function "enough"] := rfl
    rw [hConstants] at hv
    rcases List.mem_cons.mp hv with rfl | hv
    · rfl
    · obtain rfl := List.mem_singleton.mp hv
      rfl
  have hScript : ∀ i ∈ swings, i.Unnumbered := by
    intro i hi v hv ρ _
    obtain rfl : v = .text "up" :=
      List.mem_singleton.mp (List.mem_flatMap.mpr ⟨i, hi, hv⟩ :
        v ∈ swings.flatMap Instruction.constants)
    rfl
  have hBefore : runFrom swinging 100 .empty [hanging] = some hung :=
    runFrom_stepsOf (by decide +kernel)
  have hFirst : runFrom swinging 100 w swings = some swung := runFrom_stepsOf (by decide +kernel)
  have hFresh : (w.machine 0).Fresh := by
    have hVisits : ∀ s ∈ (w.machine 0).states, s.visits = [] := by decide +kernel
    refine ⟨⟨by decide +kernel, List.length_eq_zero_iff.mp (by decide +kernel), fun i => ?_⟩,
      List.length_eq_zero_iff.mp (by decide +kernel)⟩
    rw [Machine.state]
    cases hState : (w.machine 0).states[i]? with
    | none => rfl
    | some s => exact hVisits s (List.mem_of_getElem? hState)
  -- the run is over after that many steps, so its steps can be checked one by one
  have hKeeps : ({ program := program swings, world := w } : Config _).KeepsTo
      swinging.handler 0 :=
    .of_le 57 (by decide +kernel) (by decide +kernel) (by decide +kernel)
  have hReset : (step swinging 100 w₁ (.plain (some "m") (.onMachine .reset))).isSome = true := by
    decide +kernel
  obtain ⟨reset, hReset⟩ := Option.isSome_iff_exists.mp hReset
  obtain ⟨⟨ρ, again, -, -, -, hAgain, hSteps, hMachine⟩, -⟩ :=
    rerun swinging_unnumbered hSetup hScript hBefore rfl hFresh hFirst rfl hKeeps rfl
      (show w.bound.get? "m" = some 0 by decide +kernel) rfl hReset
  exact ⟨hBefore, hFirst, ρ, again, reset, hReset, hAgain, hSteps, hMachine⟩

end Session

end RuleMachine
