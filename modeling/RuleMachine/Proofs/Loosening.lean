import RuleMachine.Proofs.Deeds
import RuleMachine.Proofs.Static
import RuleMachine.Proofs.Unaware

/-!
# Other logs and other modes

Nothing that a program does depends on what has been logged before. Nor does the mode of a machine
make a difference to what leaves it alone. So primitive operations do the same in a world with
another log, and in one in which a machine is not strict.

* `Primitive.logsAlike`, `Config.Ends.withLog`: other logs.
* `Primitive.effect_loosen`: a machine that is not strict.
-/

namespace RuleMachine

-- ---------------------------------------------------------------------------
-- Other logs
-- ---------------------------------------------------------------------------

namespace World

/-- A world with another log and nothing else different. -/
def withLog (w : World) (log : Array LogEntry) : World := { w with log }

theorem withLog_self (w : World) : w.withLog w.log = w := rfl

theorem refText_withLog (w : World) (log : Array LogEntry) : (w.withLog log).refText = w.refText :=
  refText_of_machines rfl

theorem plain_withLog (w : World) (log : Array LogEntry) : (w.withLog log).plain = w.plain := by
  funext v
  rw [plain, plain, refText_withLog]

theorem fault_withLog (w : World) (log : Array LogEntry) : (w.withLog log).fault = w.fault := by
  funext cause
  rw [fault, fault, refText_withLog]

/-- Whether a change of a world does and logs the same whatever was logged before. -/
def LogsAlike (f : World → World) (w : World) : Prop :=
  ∃ es : Array LogEntry, (f w).log = w.log ++ es ∧
    ∀ log : Array LogEntry, f (w.withLog log) = (f w).withLog (log ++ es)

/-- What does not log adds nothing, whatever was logged before. -/
theorem logsAlike_silent {f : World → World} {w : World} (h : (f w).log = w.log)
    (hLog : ∀ log, f (w.withLog log) = (f w).withLog log) : LogsAlike f w := by
  refine ⟨#[], by rw [h, Array.append_empty], fun log => ?_⟩
  rw [hLog, Array.append_empty]

/-- An event that does not depend on the log is added to any log alike. -/
theorem logsAlike_emit {event : World → Event} {w : World}
    (h : ∀ log, event (w.withLog log) = event w) : LogsAlike (fun w => w.emit (event w)) w := by
  refine ⟨#[{ event := event w, machines := w.bound }], rfl, fun log => ?_⟩
  show emit (w.withLog log) (event (w.withLog log)) = _
  rw [h]
  rfl

/-- One thing after the other adds first what the first one adds. -/
theorem LogsAlike.comp {f g : World → World} {w : World} (hf : LogsAlike f w)
    (hg : LogsAlike g (f w)) : LogsAlike (fun w => g (f w)) w := by
  obtain ⟨es, hLog, hOther⟩ := hf
  obtain ⟨es', hLog', hOther'⟩ := hg
  refine ⟨es ++ es', by rw [hLog', hLog, Array.append_assoc], fun log => ?_⟩
  show g (f (w.withLog log)) = _
  rw [hOther, hOther', Array.append_assoc]

theorem LogsAlike.of_eq {f g : World → World} {w : World} (h : LogsAlike g w)
    (hSame : ∀ log, f (w.withLog log) = g (w.withLog log)) : LogsAlike f w := by
  obtain ⟨es, hLog, hOther⟩ := h
  have hHere : f w = g w := hSame w.log
  exact ⟨es, by rw [hHere, hLog], fun log => by rw [hSame, hHere, hOther]⟩

/-- Entering a state is logged alike, as the number of the visit is taken from the machine. -/
theorem logsAlike_commit (w : World) (s : StateRef) : LogsAlike (fun w => w.commit s) w := by
  by_cases hDeclares : w.declares s = true
  · let enter (w : World) : World := w.modifyMachine s.machine fun m => m.enter s.index
    let entered (w : World) : Event := .record s.machine
      (.entered (w.plain (w.state s).name) (w.state s).visits.length)
    have hEmit : LogsAlike (fun w => w.emit (entered w)) (enter w) := by
      refine logsAlike_emit fun log => ?_
      show Event.record _ (.entered (((enter w).withLog log).plain _) _) = _
      rw [plain_withLog]
      rfl
    refine (LogsAlike.comp (f := enter) (logsAlike_silent rfl fun log => rfl) hEmit).of_eq ?_
    exact fun log => if_pos hDeclares
  · exact (logsAlike_silent (f := id) rfl fun log => rfl).of_eq fun log => if_neg hDeclares

/-- Assigning to a slot, which may be refused, does not depend on the log. -/
theorem assign_withLog (w : World) (log : Array LogEntry) (s : StateRef) (slot : Slot) (v : Value) :
    (w.withLog log).assign s slot v = (w.assign s slot v).map fun w' => w'.withLog log := by
  unfold assign whileAlive
  show (if (w.state s).visits.isEmpty then _ else if w.alive s.machine then _ else _) = _
  split
  · rfl
  · split <;> rfl

/-- Slots are written without regard to the log. -/
theorem assignCurrent_withLog (w : World) (log : Array LogEntry) (ref : MachineRef) (slot : Slot)
    (v : Value) : (w.withLog log).assignCurrent ref slot v =
      (w.assignCurrent ref slot v).map fun w' => w'.withLog log := by
  have hCurrent : (w.withLog log).current? ref = w.current? ref := rfl
  rw [assignCurrent, assignCurrent, hCurrent]
  cases w.current? ref with
  | some s => exact w.assign_withLog log s slot v
  | none => rfl

theorem update_withLog (w : World) (log : Array LogEntry) (r : Except Cause World) :
    (w.withLog log).update (r.map fun w' => w'.withLog log) =
      ((w.update r).1, (w.update r).2.withLog log) := by
  cases r <;> rfl

/-- And writing to a slot is not logged, whether it fails or not. -/
theorem log_update_assign (w : World) (s : StateRef) (slot : Slot) (v : Value) :
    (w.update (w.assign s slot v)).2.log = w.log := by
  unfold assign whileAlive
  split
  · rfl
  · split <;> rfl

theorem log_update_assignCurrent (w : World) (ref : MachineRef) (slot : Slot) (v : Value) :
    (w.update (w.assignCurrent ref slot v)).2.log = w.log := by
  unfold assignCurrent
  cases w.current? ref with
  | some s => exact w.log_update_assign s slot v
  | none => rfl

/-- Building a machine logs the same, whether it succeeds or not. -/
theorem construct_withLog (w : World) (table : Value) :
    LogsAlike (fun w => (w.construct table).2) w ∧
      ∀ log, ((w.withLog log).construct table).1 = (w.construct table).1 := by
  rcases hRead : (readTable w.machines.length table).result w.streams with ⟨cause | m, s'⟩
  · have hConstruct (log : Array LogEntry) : (w.withLog log).construct table =
        (.error cause, { w.withLog log with streams := s' }) := by
      simp only [construct, withLog, hRead]
    have hStreams : LogsAlike (fun w => { w with streams := s' }) w :=
      logsAlike_silent rfl fun log => rfl
    refine ⟨hStreams.of_eq fun log => by rw [hConstruct], fun log => ?_⟩
    rw [hConstruct log, ← w.withLog_self, hConstruct w.log]
  · -- building adds a machine and logs one event, and what it logs depends on the machine only
    let add (w : World) : World := { w with streams := s', machines := w.machines ++ [m] }
    let built : Event := .record w.machines.length (.built m.states.length m.ruleCount)
    have hConstruct (log : Array LogEntry) : (w.withLog log).construct table =
        (.ok w.machines.length, (add (w.withLog log)).emit built) := by
      simp only [construct, withLog, hRead]
      rfl
    have hAdd : LogsAlike add w := logsAlike_silent rfl fun log => rfl
    have hBuilt : LogsAlike (fun w => w.emit built) (add w) := logsAlike_emit fun log => rfl
    refine ⟨(hAdd.comp hBuilt).of_eq fun log => by rw [hConstruct], fun log => ?_⟩
    rw [hConstruct log, ← w.withLog_self, hConstruct w.log]
    rfl

end World

/-- Questions are not about the log. -/
theorem Query.answer_withLog {β : Type} (q : Query β) (w : World) (log : Array LogEntry) :
    q.answer (w.withLog log) = q.answer w := by
  cases q with
  | write x => exact congrArg (Except.ok ∘ x.text) (w.refText_withLog log)
  | _ => rfl

/-- What bookkeeping logs depends on the names of states, and not on the log. -/
theorem Bookkeeping.logsAlike (b : Bookkeeping) (w : World) : World.LogsAlike b.apply w := by
  cases b with
  | setPhase id phase =>
    refine World.logsAlike_silent ?_ fun log => ?_
    · rw [apply]
      cases w.steppers.get? id <;> rfl
    · rw [apply, apply, World.withLog]
      cases w.steppers.get? id <;> rfl
  | switching m source target =>
    exact World.logsAlike_emit fun log => by rw [w.plain_withLog log]
  | noTransition m source => exact World.logsAlike_emit fun log => by rw [w.plain_withLog log]
  | performed label outcome => exact World.logsAlike_emit fun log => rfl
  | _ => exact World.logsAlike_silent rfl fun log => rfl

/-- **What a primitive operation does and logs is the same whatever was logged before.** -/
theorem Primitive.logsAlike {β : Type} (p : Primitive β) (w : World) :
    World.LogsAlike (fun w => (p.effect w).2) w ∧
      ∀ log, (p.effect (w.withLog log)).1 = (p.effect w).1 := by
  -- most operations log nothing, and what the others log is made of names, numbers and texts
  cases p with
  | look q => exact ⟨World.logsAlike_silent rfl fun log => rfl, fun log => q.answer_withLog w log⟩
  | commit s => exact ⟨w.logsAlike_commit s, fun log => rfl⟩
  | reset m =>
    refine ⟨World.LogsAlike.comp (f := fun w => w.modifyMachine m Machine.reset)
      (g := fun w => w.record m .reset) ?_ ?_, fun log => rfl⟩
    · exact World.logsAlike_silent rfl fun log => rfl
    · exact World.logsAlike_emit fun log => rfl
  | assign s slot v =>
    have hAssign (log : Array LogEntry) : (Primitive.assign s slot v).effect (w.withLog log) =
        ((w.update (w.assign s slot v)).1, (w.update (w.assign s slot v)).2.withLog log) := by
      rw [effect, w.assign_withLog, w.update_withLog]
    refine ⟨World.logsAlike_silent (w.log_update_assign s slot v) fun log => ?_, fun log => ?_⟩
    · rw [hAssign]
      rfl
    · rw [hAssign]
      rfl
  | assignCurrent m slot v =>
    have hAssign (log : Array LogEntry) : (Primitive.assignCurrent m slot v).effect
        (w.withLog log) = ((w.update (w.assignCurrent m slot v)).1,
          (w.update (w.assignCurrent m slot v)).2.withLog log) := by
      rw [effect, w.assignCurrent_withLog, w.update_withLog]
    refine ⟨World.logsAlike_silent (w.log_update_assignCurrent m slot v) fun log => ?_,
      fun log => ?_⟩
    · rw [hAssign]
      rfl
    · rw [hAssign]
      rfl
  | construct table => exact w.construct_withLog table
  | keep b => exact ⟨b.logsAlike w, fun log => rfl⟩
  | _ => exact ⟨World.logsAlike_silent rfl fun log => rfl, fun log => rfl⟩

/-- **An execution comes to the same whatever was logged before.** -/
theorem Config.Ends.withLog {handler : Handler} {α : Type} {c : Config α} {a : α} {w' : World}
    (h : c.Ends handler a w') : ∃ es : Array LogEntry, w'.log = c.world.log ++ es ∧ ∀ log,
      ({ c with world := c.world.withLog log } : Config α).Ends handler a
        (w'.withLog (log ++ es)) := by
  obtain ⟨n, hn⟩ := h
  let Longer (log : Array LogEntry) (w v : World) : Prop :=
    ∃ es : Array LogEntry, w.log = c.world.log ++ es ∧ v = w.withLog (log ++ es)
  have hAfter (log : Array LogEntry) :
      let c' : Config α := { c with world := c.world.withLog log }
      (c'.after .standard handler n).program = (c.after .standard handler n).program ∧
        Longer log (c.after .standard handler n).world (c'.after .standard handler n).world := by
    intro c'
    -- the entries added so far are the same in both executions, whatever the logs began with
    refine Config.simulation (c := c) (R := Longer log) ?_ ?_ ?_ ?_ ?_ n
    · rintro w v ⟨es, -, rfl⟩
      exact w.fault_withLog _
    · rintro w v f args ⟨es, hLog, rfl⟩
      refine ⟨es.push { event := .called f args, machines := w.bound }, ?_, ?_⟩
      · show w.log.push _ = _
        rw [hLog, Array.push_append]
      · show (w.withLog (log ++ es)).emit _ = _
        rw [← Array.push_append]
        rfl
    · rintro β p w v ⟨es, hLog, rfl⟩
      obtain ⟨⟨es', hLog', hOther⟩, hAnswer⟩ := p.logsAlike w
      refine ⟨hAnswer _, es ++ es', ?_, ?_⟩
      · rw [← Array.append_assoc, ← hLog]
        exact hLog'
      · rw [← Array.append_assoc]
        exact hOther _
    · rfl
    · exact ⟨#[], by rw [Array.append_empty], by rw [Array.append_empty]⟩
  obtain ⟨-, es, hLog, -⟩ := hAfter c.world.log
  rw [hn] at hLog
  refine ⟨es, hLog, fun log => ⟨n, ?_⟩⟩
  obtain ⟨hProgram, es', hLog', hWorld⟩ := hAfter log
  rw [hn] at hProgram hLog' hWorld
  obtain rfl : es = es' := Array.append_inj_right (hLog.symm.trans hLog') rfl
  exact congrArg₂ Config.mk hProgram hWorld

-- ---------------------------------------------------------------------------
-- Machines that are not strict
-- ---------------------------------------------------------------------------

/-- A machine that is not strict, and is otherwise the same. -/
def Machine.loosen (m : Machine) : Machine := { m with strict := false }

/-- A world in which a machine is not strict. -/
def World.loosen (w : World) (m : MachineRef) : World := w.modifyMachine m Machine.loosen

namespace Machine

theorem loosen_enter (m : Machine) (index : Nat) :
    (m.enter index).loosen = m.loosen.enter index := by
  rw [enter, enter]
  show _ = if index < m.states.length then _ else _
  split <;> rfl

theorem loosen_setSlot (m : Machine) (index : Nat) (slot : Slot) (v : Value) :
    (m.setSlot index slot v).loosen = m.loosen.setSlot index slot v := by
  have hVisits : (m.loosen.state index).visits = (m.state index).visits := rfl
  rw [setSlot, setSlot, hVisits]
  cases (m.state index).visits.getLast? <;> rfl

end Machine

namespace World

variable {w : World} {m : MachineRef}

/-- The machines differ in their modes only. -/
theorem machine_loosen (w : World) (m ref : MachineRef) :
    ∃ strict, (w.loosen m).machine ref = { w.machine ref with strict } := by
  rw [loosen, machine_modifyMachine]
  split
  · rename_i h
    exact ⟨false, by rw [h.1]; rfl⟩
  · exact ⟨(w.machine ref).strict, rfl⟩

/-- States are the same. The mode is no part of them. -/
theorem state_loosen (w : World) (m : MachineRef) (s : StateRef) :
    (w.loosen m).state s = w.state s := by
  obtain ⟨strict, hMachine⟩ := w.machine_loosen m s.machine
  rw [state, hMachine]
  rfl

theorem current?_loosen (w : World) (m ref : MachineRef) :
    (w.loosen m).current? ref = w.current? ref := by
  obtain ⟨strict, hMachine⟩ := w.machine_loosen m ref
  rw [current?, hMachine]
  rfl

theorem declares_loosen (w : World) (m : MachineRef) (s : StateRef) :
    (w.loosen m).declares s = w.declares s := by
  obtain ⟨strict, hMachine⟩ := w.machine_loosen m s.machine
  rw [declares, hMachine, declares]

/-- The text of a machine does not show its mode. -/
theorem refText_loosen (w : World) (m : MachineRef) : (w.loosen m).refText = w.refText := by
  have hLength : (w.loosen m).machines.length = w.machines.length := List.length_modify _ _ _
  rw [refText, hLength, refText]
  refine refTextBelow_congr (fun s => ?_) (fun ref => ?_) (fun ref => ?_) _
  · rw [state_loosen]
  · obtain ⟨strict, hMachine⟩ := w.machine_loosen m ref
    rw [hMachine]
  · obtain ⟨strict, hMachine⟩ := w.machine_loosen m ref
    rw [hMachine]
    rfl

theorem plain_loosen (w : World) (m : MachineRef) : (w.loosen m).plain = w.plain := by
  funext v
  rw [plain, plain, refText_loosen]

theorem fault_loosen (w : World) (m : MachineRef) : (w.loosen m).fault = w.fault := by
  funext cause
  rw [fault, fault, refText_loosen]

/-- Changes of machines that have nothing to do with the mode. -/
theorem modifyMachine_loosen {ref : MachineRef} {f : Machine → Machine}
    (h : ref = m → ∀ m : Machine, f m.loosen = (f m).loosen) :
    (w.loosen m).modifyMachine ref f = (w.modifyMachine ref f).loosen m := by
  have hMachines : (w.machines.modify m Machine.loosen).modify ref f =
      (w.machines.modify ref f).modify m Machine.loosen := by
    by_cases hRef : ref = m
    · have hComm : f ∘ Machine.loosen = Machine.loosen ∘ f := funext (h hRef)
      rw [hRef, List.modify_modify_eq, List.modify_modify_eq, hComm]
    · exact List.modify_modify_ne _ _ _ (Ne.symm hRef)
  exact congrArg (fun machines => { w with machines }) hMachines

/-- States are entered in both modes alike. -/
theorem commit_loosen (w : World) (m : MachineRef) (s : StateRef) :
    (w.loosen m).commit s = (w.commit s).loosen m := by
  unfold commit
  rw [declares_loosen]
  split
  · have hEnter : (w.loosen m).modifyMachine s.machine (fun m => m.enter s.index) =
        (w.modifyMachine s.machine fun m => m.enter s.index).loosen m :=
      modifyMachine_loosen fun _ m => (m.loosen_enter s.index).symm
    simp only [hEnter, plain_loosen, state_loosen]
    rfl
  · rfl

theorem whileAlive_loosen {α : Type} (w : World) (m : MachineRef) (s : StateRef) (a : α) :
    (w.loosen m).whileAlive s a = w.whileAlive s a := by
  rw [whileAlive, whileAlive, state_loosen]
  rfl

/-- Slots are written in both modes alike, and it fails for the same reasons. -/
theorem assign_loosen (w : World) (m : MachineRef) (s : StateRef) (slot : Slot) (v : Value) :
    (w.loosen m).assign s slot v = (w.assign s slot v).map fun w' => w'.loosen m := by
  have hSet : (w.loosen m).modifyMachine s.machine (fun m => m.setSlot s.index slot v) =
      (w.modifyMachine s.machine fun m => m.setSlot s.index slot v).loosen m :=
    modifyMachine_loosen fun _ m => (m.loosen_setSlot s.index slot v).symm
  rw [assign, assign, state_loosen, whileAlive_loosen, hSet]
  unfold whileAlive
  split
  · rfl
  · split <;> rfl

theorem assignCurrent_loosen (w : World) (m ref : MachineRef) (slot : Slot) (v : Value) :
    (w.loosen m).assignCurrent ref slot v =
      (w.assignCurrent ref slot v).map fun w' => w'.loosen m := by
  rw [assignCurrent, assignCurrent, current?_loosen]
  cases w.current? ref with
  | some s => exact w.assign_loosen m s slot v
  | none => rfl

theorem update_loosen (w : World) (m : MachineRef) (r : Except Cause World) :
    (w.loosen m).update (r.map fun w' => w'.loosen m) =
      ((w.update r).1, (w.update r).2.loosen m) := by
  cases r <;> rfl

/-- The machine that is built is another one. -/
theorem construct_loosen (hBuilt : m < w.machines.length) (table : Value) :
    (w.loosen m).construct table = ((w.construct table).1, (w.construct table).2.loosen m) := by
  have hLength : (w.loosen m).machines.length = w.machines.length := List.length_modify _ _ _
  have hStreams : (w.loosen m).streams = w.streams := rfl
  rcases hRead : (readTable w.machines.length table).result w.streams with ⟨cause | built, s'⟩
  · simp only [construct, hLength, hStreams, hRead]
    rfl
  · have hMachines : (w.loosen m).machines ++ [built] =
        (w.machines ++ [built]).modify m Machine.loosen := by
      -- the machine is not the one that is built, so it makes no difference which comes first
      refine List.ext_getElem? fun i => ?_
      show (w.machines.modify m Machine.loosen ++ [built])[i]? = _
      rw [List.getElem?_modify]
      by_cases hi : i < w.machines.length
      · rw [List.getElem?_append_left (by rwa [List.length_modify]), List.getElem?_append_left hi,
          List.getElem?_modify]
      · have hBeyond : w.machines.length ≤ i := Nat.not_lt.mp hi
        have hNe : m ≠ i := Nat.ne_of_lt (Nat.lt_of_lt_of_le hBuilt hBeyond)
        rw [List.getElem?_append_right (by rwa [List.length_modify]), List.length_modify,
          List.getElem?_append_right hBeyond]
        simp only [if_neg hNe, id_map']
    simp only [construct, hLength, hStreams, hRead, hMachines]
    rfl

end World

/-- Questions that are not about the mode. -/
theorem Query.answer_loosen {β : Type} {q : Query β} {m : MachineRef}
    (h : (Primitive.look q).ignoresMode m = true) (w : World) :
    q.answer (w.loosen m) = q.answer w := by
  -- the only question about the mode is excluded for this machine
  cases q with
  | write x => exact congrArg (Except.ok ∘ x.text) (w.refText_loosen m)
  | strict ref =>
    have hRef : ref ≠ m := bne_iff_ne.mp h
    rw [answer, World.loosen, World.machine_modifyMachine_ne w _ (Ne.symm hRef), answer]
  | states ref | resolve ref _ | table ref | previous ref | history ref | notes ref | done ref =>
    obtain ⟨strict, hMachine⟩ := w.machine_loosen m ref
    rw [answer, hMachine, answer] <;> rfl
  | name s | actions s _ | rules s | visitCount s => rw [answer, w.state_loosen, answer]
  | current ref => exact congrArg Except.ok (w.current?_loosen m ref)
  | latest s slot =>
    obtain ⟨strict, hMachine⟩ := w.machine_loosen m s.machine
    rw [answer, World.latest, w.state_loosen, w.whileAlive_loosen, hMachine, answer, World.latest]
    rfl
  | slots s slot =>
    obtain ⟨strict, hMachine⟩ := w.machine_loosen m s.machine
    rw [answer, World.slots, w.whileAlive_loosen, hMachine, answer, World.slots]
    rfl
  | alive | bound | held | stepper => rfl

/-- Bookkeeping looks at nothing but bindings, steppers and names of states. -/
theorem Bookkeeping.apply_loosen (b : Bookkeeping) (w : World) (m : MachineRef) :
    b.apply (w.loosen m) = (b.apply w).loosen m := by
  cases b with
  | setPhase id phase =>
    have hSteppers : (w.loosen m).steppers.get? id = w.steppers.get? id := rfl
    rw [apply, apply, hSteppers]
    cases w.steppers.get? id <;> rfl
  | switching ref source target =>
    rw [apply, w.plain_loosen]
    rfl
  | noTransition ref source =>
    rw [apply, w.plain_loosen]
    rfl
  | _ => rfl

/-- **What leaves the mode alone does the same in a world in which the machine is not strict.** -/
theorem Primitive.effect_loosen {β : Type} {p : Primitive β} {m : MachineRef}
    (h : p.ignoresMode m = true) {w : World} (hBuilt : m < w.machines.length) :
    p.effect (w.loosen m) = ((p.effect w).1, (p.effect w).2.loosen m) := by
  -- an operation that sets the mode sets that of another machine, and all others do not touch it
  cases p with
  | look q => exact congrArg (·, _) (q.answer_loosen h w)
  | commit s => exact congrArg (_, ·) (w.commit_loosen m s)
  | reset ref =>
    have hReset : (w.loosen m).modifyMachine ref Machine.reset =
        (w.modifyMachine ref Machine.reset).loosen m := World.modifyMachine_loosen fun _ m => rfl
    rw [effect, World.reset, hReset]
    rfl
  | assign s slot v => rw [effect, w.assign_loosen, w.update_loosen, effect]
  | assignCurrent ref slot v => rw [effect, w.assignCurrent_loosen, w.update_loosen, effect]
  | adjust ref a =>
    refine congrArg (_, ·) (World.modifyMachine_loosen fun hRef m => ?_)
    cases a with
    | strict b => exact absurd hRef (bne_iff_ne.mp h)
    | _ => rfl
  | construct table => exact World.construct_loosen hBuilt table
  | keep b => exact congrArg (_, ·) (b.apply_loosen w m)
  | _ => rfl

-- ---------------------------------------------------------------------------
-- Both
-- ---------------------------------------------------------------------------

/-- A world in which a machine is not strict and something else was logged. -/
def World.relax (w : World) (m : MachineRef) (log : Array LogEntry) : World :=
  (w.loosen m).withLog log

/-- Failures are worded alike in either mode and with any log. -/
theorem World.fault_relax (w : World) (m : MachineRef) (log : Array LogEntry) :
    (w.relax m log).fault = w.fault := by
  rw [relax, fault_withLog, fault_loosen]

/-- What leaves the mode alone does and logs the same. -/
theorem Primitive.effect_relax {β : Type} {p : Primitive β} {m : MachineRef}
    (h : p.ignoresMode m = true) {w : World} (hBuilt : m < w.machines.length) :
    ∃ es : Array LogEntry, (p.effect w).2.log = w.log ++ es ∧ ∀ log,
      p.effect (w.relax m log) = ((p.effect w).1, (p.effect w).2.relax m (log ++ es)) := by
  have hLoosen := effect_loosen h hBuilt
  obtain ⟨⟨es, hLog, hOther⟩, hAnswer⟩ := p.logsAlike (w.loosen m)
  simp only [hLoosen] at hLog hOther hAnswer
  exact ⟨es, hLog, fun log => Prod.ext (hAnswer log) (hOther log)⟩

end RuleMachine
