import Mathlib.Data.List.Basic
import Mathlib.Logic.Function.Basic
import RuleMachine.Proofs.Consistency

/-!
# Slots by scanning the history

A state finds its slots through the positions of its visits. It could do without them: a look
through the history finds the same visits by name. Here is a machine that does so. It keeps the
history and no positions, and every question about visits is answered by a scan.

Such a machine has entries of its own. The slots of an `Entry` are a function of the slot, which is
applied to read one and updated to write one, so an entry that was written to differs from what it
was in the one slot and in nothing else. Nor does it share how a machine is changed: what has become
of one is put in its place as a whole.

`Semantics.scanning` is the meaning of the primitive operations for such machines, and
`Config.same_by_scanning` says that no program and no function can tell it from the standard
one: there are the same answers, the same failures, the same log and the same histories at every
moment.
-/

namespace RuleMachine

-- ---------------------------------------------------------------------------
-- Entries
-- ---------------------------------------------------------------------------

/-- An entry of a history that is scanned: a name, and what each slot holds. -/
structure Entry where
  name : Value
  slot : Slot → Value

namespace Entry

/-- The entry that is made when a state is entered. No slot holds anything. -/
def new (name : Value) : Entry := { name, slot := fun _ => .null }

/-- Puts a value into one slot. -/
def write (e : Entry) (slot : Slot) (v : Value) : Entry :=
  { e with slot := Function.update e.slot slot v }

/-- The entry that a visit is. -/
def ofVisit (visit : Visit) : Entry where
  name := visit.name
  slot
    | .result => visit.result
    | .message => visit.message

/-- The visit that an entry is. -/
def toVisit (e : Entry) : Visit :=
  { name := e.name, result := e.slot .result, message := e.slot .message }

end Entry

/-- Writes to a slot of a visit, by way of the entry that the visit is. -/
def Visit.write (slot : Slot) (v : Value) (visit : Visit) : Visit :=
  ((Entry.ofVisit visit).write slot v).toVisit

/-- Beginning a visit makes a new entry. -/
theorem Visit.begin_eq (name : Value) : Visit.begin name = (Entry.new name).toVisit := rfl

/-- Reading a slot is applying the slots of the entry. -/
theorem Visit.get_eq (visit : Visit) (slot : Slot) :
    visit.get slot = (Entry.ofVisit visit).slot slot := by
  cases slot <;> rfl

/-- Putting a value into a slot is writing to the entry. -/
theorem Visit.put_eq (visit : Visit) (slot : Slot) (v : Value) :
    visit.put slot v = visit.write slot v := by
  cases slot <;> rfl

-- ---------------------------------------------------------------------------
-- Machines without positions
-- ---------------------------------------------------------------------------

/-- Changes the last visit that fits; nothing if none does. -/
def rewriteLast (fits : Visit → Bool) (f : Visit → Visit) : List Visit → Option (List Visit)
  | [] => none
  | visit :: rest =>
    match rewriteLast fits f rest with
    | some rest' => some (visit :: rest')
    | none => if fits visit then some (f visit :: rest) else none

namespace Machine

/-- Whether a visit is one to the state at a place of the table, going by the name. -/
def owns (m : Machine) (index : Nat) (visit : Visit) : Bool :=
  match m.states[index]? with
  | some s => visit.name.eqv s.name
  | none => false

/-- The entries of the history with the name of a state. -/
def entries (m : Machine) (index : Nat) : List Entry :=
  (m.history.filter (m.owns index)).map Entry.ofVisit

/-- Commits to a state without noting the position. -/
def scanEnter (m : Machine) (index : Nat) : Machine :=
  if index < m.states.length then
    { m with
      history := m.history ++ [(Entry.new (m.nameOf index)).toVisit]
      current := some index }
  else m

/-- Forgets the current state, the history and the notes. -/
def scanReset (m : Machine) : Machine := { m with current := none, history := [], notes := [] }

end Machine

namespace World

/-- What a scan finds in the history of a machine, if the machine is there to be scanned. -/
def scanned {α : Type} (w : World) (s : StateRef) (a : α) : Except Cause α :=
  if w.alive s.machine then .ok a else .error (.outlivedMachine (w.state s).name)

/-- The slot of the last entry with the name of a state, null if there is none. -/
def scanLatest (w : World) (s : StateRef) (slot : Slot) : Except Cause Value :=
  match ((w.machine s.machine).entries s.index).getLast? with
  | some e => w.scanned s (e.slot slot)
  | none => .ok .null

/-- The slots of all entries with the name of a state. -/
def scanSlots (w : World) (s : StateRef) (slot : Slot) : Except Cause (List Value) :=
  w.scanned s (((w.machine s.machine).entries s.index).map fun e => e.slot slot)

/-- The machine with the slot of the last entry with the name of a state rewritten. -/
def scanAssign (w : World) (s : StateRef) (slot : Slot) (v : Value) : Except Cause Machine :=
  let m := w.machine s.machine
  match rewriteLast (m.owns s.index) (Visit.write slot v) m.history with
  | some history => w.scanned s { m with history }
  | none => .error (.neverEntered (w.state s).name)

/-- The machine with the slot of the very last entry rewritten. -/
def scanAssignCurrent (w : World) (ref : MachineRef) (slot : Slot) (v : Value) :
    Except Cause Machine :=
  let m := w.machine ref
  match m.current with
  | some index =>
    let history := m.history.modify (m.history.length - 1) (Visit.write slot v)
    w.scanned { machine := ref, index } { m with history }
  | none => .error .notStarted

/-- Puts what has become of a machine in its place. -/
def replace (w : World) (ref : MachineRef) (m : Machine) : World :=
  { w with machines := w.machines.set ref m }

/-- Puts what has become of a machine in its place, unless it was refused. -/
def settle (w : World) (ref : MachineRef) (r : Except Cause Machine) : Except Cause Unit × World :=
  match r with
  | .ok m => (.ok (), w.replace ref m)
  | .error cause => (.error cause, w)

/-- Commits to a state and logs that it did, with the number of entries there are by then. -/
def scanCommit (w : World) (s : StateRef) : World :=
  if w.declares s then
    let w' := w.replace s.machine ((w.machine s.machine).scanEnter s.index)
    w'.record s.machine (.entered (w'.plain (w'.state s).name)
      ((w'.machine s.machine).entries s.index).length)
  else w

end World

/-- The answers to the queries about visits, by scanning. -/
def Query.scan {β : Type} (q : Query β) (w : World) : Except Cause β :=
  match q with
  | .visitCount s => .ok ((w.machine s.machine).entries s.index).length
  | .latest s slot => w.scanLatest s slot
  | .slots s slot => w.scanSlots s slot
  | .history m => .ok (w.machine m).history
  | q => q.answer w

/-- The primitive operations on machines without positions. -/
def Primitive.scan {β : Type} (p : Primitive β) (w : World) : Except Cause β × World :=
  match p with
  | .look q => (q.scan w, w)
  | .commit s => (.ok (), w.scanCommit s)
  | .reset m => (.ok (), (w.replace m (w.machine m).scanReset).record m .reset)
  | .assign s slot v => w.settle s.machine (w.scanAssign s slot v)
  | .assignCurrent m slot v => w.settle m (w.scanAssignCurrent m slot v)
  | p => p.effect w

/-- The meaning of the primitive operations for machines without positions. -/
def Semantics.scanning : Semantics := fun _ p w => p.scan w

-- ---------------------------------------------------------------------------
-- Forgetting the positions
-- ---------------------------------------------------------------------------

/-- A machine without the positions. -/
def Machine.forget (m : Machine) : Machine := { m with states := m.declared }

/-- A world without the positions. -/
def World.forget (w : World) : World := { w with machines := w.machines.map Machine.forget }

/-- A moment without the positions. -/
def Config.forget {α : Type} (c : Config α) : Config α := { c with world := c.world.forget }

namespace Machine

/-- A state without positions is the state that was declared. -/
theorem state_forget (m : Machine) (index : Nat) :
    m.forget.state index = (m.state index).unvisited := by
  rw [unvisited_state]
  rfl

@[simp] theorem nameOf_forget (m : Machine) (index : Nat) :
    m.forget.nameOf index = m.nameOf index := by
  rw [nameOf, state_forget]
  rfl

@[simp] theorem length_forget (m : Machine) : m.forget.states.length = m.states.length :=
  m.length_declared

/-- Which visits are to a state is told by names, and they are the same. -/
@[simp] theorem owns_forget (m : Machine) (index : Nat) : m.forget.owns index = m.owns index := by
  funext visit
  simp only [owns, forget, declared, List.getElem?_map]
  cases m.states[index]? <;> rfl

/-- So a scan finds the same entries. -/
@[simp] theorem entries_forget (m : Machine) (index : Nat) :
    m.forget.entries index = m.entries index := by
  rw [entries, owns_forget]
  rfl

@[simp] theorem find?_forget (m : Machine) (name : Value) : m.forget.find? name = m.find? name := by
  simp only [find?, forget, declared, List.findIdx?_map]
  rfl

@[simp] theorem resolve?_forget (m : Machine) (ref : MachineRef) (v : Value) :
    m.forget.resolve? ref v = m.resolve? ref v := by
  cases v <;> simp [resolve?]

@[simp] theorem previous?_forget (m : Machine) : m.forget.previous? = m.previous? := by
  simp only [previous?, find?_forget]
  rfl

/-- The static table never mentioned positions. -/
@[simp] theorem table_forget (m : Machine) : m.forget.table = m.table := by
  simp only [table, nameOf_forget]
  show (m.states.map State.unvisited).map _ = _
  rw [List.map_map]
  rfl

@[simp] theorem currentName?_forget (m : Machine) : m.forget.currentName? = m.currentName? := by
  simp only [currentName?, funext (nameOf_forget m)]
  rfl

/-- Entering a state without noting the position. -/
theorem forget_enter (m : Machine) (index : Nat) :
    (m.enter index).forget = m.forget.scanEnter index := by
  rw [forget, declared_enter, scanEnter, length_forget, nameOf_forget]
  unfold enter
  rw [Visit.begin_eq]
  split <;> rfl

/-- A reset forgets the positions as well. -/
theorem forget_reset (m : Machine) : m.reset.forget = m.forget.scanReset := by
  rw [forget, declared_reset]
  rfl

theorem forget_adjust (a : Adjustment) (m : Machine) : (a.apply m).forget = a.apply m.forget := by
  cases a <;> rfl

/-- A machine that was never entered has no positions to forget. -/
theorem forget_of_unused {m : Machine} (h : m.Unused) : m.forget = m := by
  have hStates : m.declared = m.states := by
    apply List.ext_getElem
    · exact m.length_declared
    · intro i hi hi'
      have hVisits : (m.states[i]).visits = [] := by
        simpa [state, List.getElem?_eq_getElem hi'] using h.visits i
      simp [declared, State.unvisited, ← hVisits]
  rw [forget, hStates]

end Machine

namespace World

@[simp] theorem machine_forget (w : World) (ref : MachineRef) :
    w.forget.machine ref = (w.machine ref).forget := by
  simp only [machine, forget, List.getElem?_map]
  cases w.machines[ref]? <;> rfl

theorem state_forget (w : World) (s : StateRef) : w.forget.state s = (w.state s).unvisited := by
  rw [state, machine_forget, Machine.state_forget]
  rfl

@[simp] theorem name_forget (w : World) (s : StateRef) :
    (w.forget.state s).name = (w.state s).name := by
  rw [state_forget]
  rfl

@[simp] theorem alive_forget (w : World) (ref : MachineRef) :
    w.forget.alive ref = w.alive ref := rfl

/-- The current state is kept as such, and not as a position. -/
@[simp] theorem current?_forget (w : World) (ref : MachineRef) :
    w.forget.current? ref = w.current? ref := by
  rw [current?, machine_forget]
  rfl

@[simp] theorem declares_forget (w : World) (s : StateRef) :
    w.forget.declares s = w.declares s := by
  simp only [declares, machine_forget, Machine.length_forget]

/-- No text shows a position. -/
@[simp] theorem refText_forget (w : World) : w.forget.refText = w.refText := by
  have hLength : w.forget.machines.length = w.machines.length := List.length_map _
  rw [refText, refText, hLength]
  refine refTextBelow_congr w.name_forget ?_ ?_ w.machines.length
  · simp only [machine_forget, Machine.length_forget, implies_true]
  · simp only [machine_forget, Machine.currentName?_forget, implies_true]

@[simp] theorem plain_forget (w : World) : w.forget.plain = w.plain := by
  funext v
  simp only [plain, refText_forget]

@[simp] theorem fault_forget (w : World) : w.forget.fault = w.fault := by
  funext cause
  simp only [fault, refText_forget]

/-- Changes of a machine that differ in nothing but positions differ in nothing but positions in the
world. -/
theorem forget_modifyMachine {w : World} {ref : MachineRef} {f g : Machine → Machine}
    (h : (f (w.machine ref)).forget = g (w.machine ref).forget) :
    (w.modifyMachine ref f).forget = w.forget.modifyMachine ref g := by
  have hMachines : (w.machines.modify ref f).map Machine.forget =
      (w.machines.map Machine.forget).modify ref g := by
    apply List.ext_getElem?
    intro i
    simp only [List.getElem?_map, List.getElem?_modify]
    -- one machine is changed alike in both worlds, and the others stay
    by_cases hi : ref = i
    · subst hi
      rw [machine] at h
      cases hMachine : w.machines[ref]? with
      | none => rfl
      | some m => simpa [hMachine] using h
    · cases w.machines[i]? <;> simp [hi]
  simp only [modifyMachine, forget, hMachines]

/-- A machine that is changed is put in its place. -/
theorem forget_replace {w : World} {ref : MachineRef} {f : Machine → Machine} {m : Machine}
    (h : (f (w.machine ref)).forget = m) :
    (w.modifyMachine ref f).forget = w.forget.replace ref m := by
  rw [forget_modifyMachine (g := fun _ => m) h, replace, List.set_eq_modify]
  rfl

/-- A change that may be refused, and what has become of the machine. -/
theorem settle_forget {w : World} {ref : MachineRef} {r : Except Cause World}
    {r' : Except Cause Machine} (h : r'.map (w.forget.replace ref) = r.map World.forget) :
    w.forget.settle ref r' = ((w.update r).1, (w.update r).2.forget) := by
  cases r with
  | ok v =>
    cases r' with
    | ok m => exact congrArg (Prod.mk _) (Except.ok.inj h)
    | error cause => cases h
  | error cause =>
    cases r' with
    | ok m => cases h
    | error cause' =>
      cases h
      rfl

end World

-- ---------------------------------------------------------------------------
-- Positions say what a scan finds
-- ---------------------------------------------------------------------------

/-- The positions of what fits are shifted by an item put in front. -/
theorem findIdxs_cons_succ {α : Type} (fits : α → Bool) (a : α) (rest : List α) :
    (a :: rest).findIdxs fits =
      (if fits a then [0] else []) ++ (rest.findIdxs fits).map (· + 1) := by
  have hShift : rest.findIdxs fits (0 + 1) = (rest.findIdxs fits).map (· + 1) :=
    List.findIdxs_start
  rw [List.findIdxs_cons, hShift]
  cases fits a <;> rfl

/-- The last visit that fits is at the last of the positions of those that do. -/
theorem rewriteLast_eq (fits : Visit → Bool) (f : Visit → Visit) (history : List Visit) :
    rewriteLast fits f history =
      (history.findIdxs fits).getLast?.map fun position => history.modify position f := by
  induction history with
  | nil => rfl
  | cons visit rest ih =>
    rw [rewriteLast, ih, findIdxs_cons_succ, List.getLast?_append, List.getLast?_map]
    cases hLast : (rest.findIdxs fits).getLast? with
    | none => cases hFits : fits visit <;> simp
    | some position => simp

/-- The entries at the positions of those that fit are those that fit. -/
theorem filterMap_findIdxs (fits : Visit → Bool) (history : List Visit) :
    ((history.findIdxs fits).filterMap fun position => history[position]?) =
      history.filter fits := by
  induction history with
  | nil => rfl
  | cons visit rest ih =>
    rw [findIdxs_cons_succ, List.filterMap_append, List.filterMap_map]
    cases hFits : fits visit <;> simp [hFits, ih]

namespace Machine

variable {ref : MachineRef} {m : Machine}

/-- **The positions that are kept are those that a scan finds.** -/
theorem Consistent.visits_eq (h : m.Consistent ref) (index : Nat) :
    (m.state index).visits = m.history.findIdxs (m.owns index) := by
  by_cases hIndex : index < m.states.length
  · have hOwns : m.owns index = (fun name => name.eqv (m.nameOf index)) ∘ Visit.name := by
      funext visit
      simp [owns, nameOf, state, List.getElem?_eq_getElem hIndex]
    rw [h.visits index hIndex, positions, stack, List.findIdxs_map, hOwns]
  · have hNone : m.states[index]? = none := List.getElem?_eq_none (Nat.not_lt.mp hIndex)
    have hOwns : ∀ visit ∈ m.history, m.owns index visit = false := by
      intro visit _
      simp [owns, hNone]
    rw [List.findIdxs_eq_nil_iff.mpr hOwns, state, hNone]
    rfl

/-- So the visits at the positions are the entries with the name. -/
theorem Consistent.visitsTo_eq (h : m.Consistent ref) (index : Nat) :
    (m.visitsTo index).map Entry.ofVisit = m.entries index := by
  rw [visitsTo, h.visits_eq, filterMap_findIdxs, entries]

/-- And there are as many. -/
theorem Consistent.length_visits (h : m.Consistent ref) (index : Nat) :
    (m.state index).visits.length = (m.entries index).length := by
  rw [h.visits_eq, List.length_findIdxs, entries, List.length_map, List.countP_eq_length_filter]

/-- A state has visits exactly if a scan finds some. -/
theorem Consistent.isEmpty_visits (h : m.Consistent ref) (index : Nat) :
    (m.state index).visits.isEmpty = (m.entries index).isEmpty := by
  rw [Bool.eq_iff_iff, List.isEmpty_iff_length_eq_zero, List.isEmpty_iff_length_eq_zero,
    h.length_visits]

/-- Writing at the last position is rewriting the last entry with the name. -/
theorem Consistent.rewriteLast_owns (h : m.Consistent ref) (index : Nat) (f : Visit → Visit) :
    rewriteLast (m.owns index) f m.history =
      (m.state index).visits.getLast?.map fun position => m.history.modify position f := by
  rw [rewriteLast_eq, h.visits_eq]

/-- The current state was visited, and the latest visit to it is the last one of all. -/
theorem Consistent.getLast?_visits (h : m.Consistent ref) {index : Nat}
    (hCurrent : m.current = some index) :
    (m.state index).visits.getLast? = some (m.history.length - 1) := by
  obtain ⟨hIndex, hLast⟩ := h.current_last index hCurrent
  obtain ⟨earlier, hStack⟩ := List.getLast?_eq_some_iff.mp hLast
  have hLength : earlier.length = m.history.length - 1 := by
    have hLengths := congrArg List.length hStack
    simp only [stack, List.length_map, List.length_append, List.length_singleton] at hLengths
    omega
  rw [h.visits index hIndex, positions, hStack, List.findIdxs_append, List.findIdxs_singleton,
    if_pos (Value.eqv_refl _), List.getLast?_concat, hLength, Nat.zero_add]

end Machine

-- ---------------------------------------------------------------------------
-- Each operation comes to the same
-- ---------------------------------------------------------------------------

/-- What has a last item is not empty. -/
theorem isEmpty_of_getLast? {α : Type} {l : List α} {a : α} (h : l.getLast? = some a) :
    l.isEmpty = false := by
  cases l with
  | nil => cases h
  | cons b l => rfl

namespace World

variable {w : World}

theorem scanned_forget {α : Type} (s : StateRef) (a : α) :
    w.forget.scanned s a = w.whileAlive s a := by
  rw [scanned, alive_forget, name_forget, whileAlive]

/-- Whether a machine is alive does not depend on what is computed with the answer. -/
theorem map_whileAlive {α β : Type} (f : α → β) (s : StateRef) (a : α) :
    (w.whileAlive s a).map f = w.whileAlive s (f a) := by
  unfold whileAlive
  split <;> rfl

/-- The latest slot is the slot of the last entry with the name. -/
theorem scanLatest_forget (h : ∀ ref, (w.machine ref).Consistent ref) (s : StateRef) (slot : Slot) :
    w.forget.scanLatest s slot = w.latest s slot := by
  have hEmpty := (h s.machine).isEmpty_visits s.index
  rw [← state] at hEmpty
  rw [scanLatest, latest, machine_forget, Machine.entries_forget, hEmpty, Machine.latest,
    ← (h s.machine).visitsTo_eq, List.getLast?_map, List.isEmpty_map]
  cases hLast : ((w.machine s.machine).visitsTo s.index).getLast? with
  | none => rw [List.getLast?_eq_none_iff.mp hLast]; rfl
  | some visit =>
    rw [isEmpty_of_getLast? hLast]
    show w.forget.scanned s ((Entry.ofVisit visit).slot slot) = w.whileAlive s (visit.get slot)
    rw [scanned_forget, visit.get_eq]

/-- All slots of a state, in order. -/
theorem scanSlots_forget (h : ∀ ref, (w.machine ref).Consistent ref) (s : StateRef) (slot : Slot) :
    w.forget.scanSlots s slot = w.slots s slot := by
  rw [scanSlots, slots, machine_forget, Machine.entries_forget, scanned_forget, Machine.slots,
    ← (h s.machine).visitsTo_eq, List.map_map]
  exact congrArg (fun read => w.whileAlive s (List.map read _))
    (funext fun visit => (visit.get_eq slot).symm)

/-- Once the position to be changed is known, both change the entry there. -/
theorem forget_setSlot {s : StateRef} {position : Nat} (slot : Slot) (v : Value)
    (h : (w.state s).visits.getLast? = some position) :
    (w.modifyMachine s.machine fun m => m.setSlot s.index slot v).forget =
      w.forget.replace s.machine
        { (w.machine s.machine).forget with
          history := (w.machine s.machine).history.modify position (Visit.write slot v) } := by
  apply forget_replace
  rw [Machine.setSlot, ← state, h, ← funext fun visit : Visit => visit.put_eq slot v]
  rfl

/-- Writing to a slot of a state, which fails if it was never entered. -/
theorem scanAssign_forget (h : ∀ ref, (w.machine ref).Consistent ref) (s : StateRef) (slot : Slot)
    (v : Value) : (w.forget.scanAssign s slot v).map (w.forget.replace s.machine) =
      (w.assign s slot v).map World.forget := by
  have hHistory : (w.machine s.machine).forget.history = (w.machine s.machine).history := rfl
  simp only [scanAssign, machine_forget, Machine.owns_forget, hHistory, name_forget,
    scanned_forget]
  rw [(h s.machine).rewriteLast_owns, assign, ← state]
  cases hLast : (w.state s).visits.getLast? with
  | none => rw [List.getLast?_eq_none_iff.mp hLast]; rfl
  | some position =>
    rw [isEmpty_of_getLast? hLast, Option.map_some]
    show (w.whileAlive s _).map _ = (w.whileAlive s _).map World.forget
    rw [map_whileAlive, map_whileAlive, forget_setSlot slot v hLast]

/-- **Writing to the very last entry,** which is the last one of the current state. -/
theorem scanAssignCurrent_forget (h : ∀ ref, (w.machine ref).Consistent ref) (ref : MachineRef)
    (slot : Slot) (v : Value) :
    (w.forget.scanAssignCurrent ref slot v).map (w.forget.replace ref) =
      (w.assignCurrent ref slot v).map World.forget := by
  have hSame : (w.machine ref).forget.current = (w.machine ref).current := rfl
  unfold scanAssignCurrent assignCurrent
  simp only [machine_forget, hSame]
  cases hCurrent : (w.machine ref).current with
  | none =>
    rw [current?, hCurrent]
    rfl
  | some index =>
    -- the last position of the current state is the end of the history
    have hLast : (w.state { machine := ref, index }).visits.getLast? =
        some ((w.machine ref).history.length - 1) := (h ref).getLast?_visits hCurrent
    simp only [current?, hCurrent, Option.map_some, scanned_forget]
    rw [assign, isEmpty_of_getLast? hLast]
    show (w.whileAlive _ _).map _ = (w.whileAlive _ _).map World.forget
    rw [map_whileAlive, map_whileAlive, forget_setSlot slot v hLast, ← hCurrent]
    rfl

/-- Entering a state, with the number of entries with its name in the record. -/
theorem scanCommit_forget (h : ∀ ref, (w.machine ref).Consistent ref) (s : StateRef) :
    w.forget.scanCommit s = (w.commit s).forget := by
  rw [scanCommit, commit, declares_forget]
  cases hDeclares : w.declares s with
  | false => rfl
  | true =>
    have hIndex : s.index < (w.machine s.machine).states.length := declares_iff.mp hDeclares
    have hForget : (w.modifyMachine s.machine fun m => m.enter s.index).forget =
        w.forget.replace s.machine ((w.machine s.machine).forget.scanEnter s.index) :=
      forget_replace (Machine.forget_enter (w.machine s.machine) s.index)
    have hMove : w.Move s.machine False
        ((w.modifyMachine s.machine fun m => m.enter s.index).machine s.machine) :=
      Move.of_modify fun _ => .enter s.index hIndex
    -- the number of visits is recorded after the state was entered, so consistency is needed of the
    -- machine by then
    have hConsistent := hMove.consistent (h s.machine)
    have hLength := hConsistent.length_visits s.index
    rw [← state] at hLength
    simp only [if_true, ← hForget, plain_forget, name_forget, machine_forget,
      Machine.entries_forget, hLength]
    rfl

end World

/-- Every question is answered alike. -/
theorem Query.scan_forget {β : Type} (q : Query β) {w : World}
    (h : ∀ ref, (w.machine ref).Consistent ref) : q.scan w.forget = q.answer w := by
  -- only three questions are about visits
  cases q with
  | visitCount s =>
    have hLength := (h s.machine).length_visits s.index
    rw [← World.state] at hLength
    simp [scan, answer, hLength]
  | latest s slot => exact World.scanLatest_forget h s slot
  | slots s slot => exact World.scanSlots_forget h s slot
  | states m => simp [scan, answer]
  | actions s slot =>
    simp only [scan, answer, World.state_forget]
    cases slot <;> rfl
  | rules s =>
    simp only [scan, answer, World.state_forget]
    rfl
  | history m | notes m | done m | strict m =>
    simp only [scan, answer, World.machine_forget]
    rfl
  | bound id | held id | stepper id => rfl
  | _ => simp [scan, answer]

/-- Bookkeeping looks at no machine. -/
theorem Bookkeeping.apply_forget (b : Bookkeeping) (w : World) :
    b.apply w.forget = (b.apply w).forget := by
  cases b with
  | setPhase id phase =>
    have hSteppers : w.forget.steppers = w.steppers := rfl
    simp only [apply, hSteppers]
    cases w.steppers.get? id <;> rfl
  | switching m source target =>
    simp only [apply, World.plain_forget]
    rfl
  | noTransition m source =>
    simp only [apply, World.plain_forget]
    rfl
  | _ => rfl

/-- A machine that is built has no positions yet. -/
theorem World.construct_forget (w : World) (table : Value) :
    w.forget.construct table = ((w.construct table).1, (w.construct table).2.forget) := by
  have hLength : w.forget.machines.length = w.machines.length := List.length_map _
  have hStreams : w.forget.streams = w.streams := rfl
  simp only [construct, hLength, hStreams]
  rcases hRead : (readTable w.machines.length table).result w.streams with ⟨cause | m, streams⟩
  · rfl
  · have hUnused := (readTable_fresh hRead).2
    have hMachines : (w.machines ++ [m]).map Machine.forget =
        w.machines.map Machine.forget ++ [m] := by
      rw [List.map_append, List.map_singleton, Machine.forget_of_unused hUnused]
    simp only [forget, record, emit, hMachines]

/-- **A primitive operation comes to the same with and without positions.** -/
theorem Primitive.scan_forget {β : Type} (p : Primitive β) {w : World}
    (h : ∀ ref, (w.machine ref).Consistent ref) :
    p.scan w.forget = ((p.effect w).1, (p.effect w).2.forget) := by
  cases p with
  | look q =>
    simp only [scan, effect, q.scan_forget h]
  | commit s => simp only [scan, effect, World.scanCommit_forget h]
  | reset m =>
    have hReset : (w.modifyMachine m Machine.reset).forget =
        w.forget.replace m (w.machine m).forget.scanReset :=
      World.forget_replace (Machine.forget_reset _)
    simp only [scan, effect, World.reset, World.machine_forget, ← hReset]
    rfl
  | assign s slot v => exact World.settle_forget (World.scanAssign_forget h s slot v)
  | assignCurrent m slot v => exact World.settle_forget (World.scanAssignCurrent_forget h m slot v)
  | adjust m a =>
    simp only [scan, effect, World.forget_modifyMachine (Machine.forget_adjust a _)]
  | construct table => exact w.construct_forget table
  | keep b => simp only [scan, effect, b.apply_forget]
  | _ => rfl

-- ---------------------------------------------------------------------------
-- Whole executions
-- ---------------------------------------------------------------------------

/-- What machines that scan come to is what the others come to, without the positions. -/
theorem Config.after_scanning {α : Type} (handler : Handler) (p : Program α) (n : Nat) :
    (start p).after .scanning handler n = ((start p).after .standard handler n).forget := by
  let R (w w' : World) : Prop := (∀ ref, (w.machine ref).Consistent ref) ∧ w' = w.forget
  have hSame : ((start p).after .scanning handler n).program =
        ((start p).after .standard handler n).program ∧
      R ((start p).after .standard handler n).world
        ((start p).after .scanning handler n).world := by
    -- positions are what a scan would find at every moment, so the two executions never part
    refine simulation ?_ ?_ ?_ rfl ⟨fun ref => Machine.consistent_default ref, rfl⟩ n
    · rintro w w' ⟨-, rfl⟩
      exact w.fault_forget
    · rintro w w' f args ⟨h, rfl⟩
      exact ⟨h, rfl⟩
    · rintro β p w w' ⟨h, rfl⟩
      have hScan : Semantics.scanning β p w.forget = p.scan w.forget := rfl
      rw [hScan, p.scan_forget h]
      exact ⟨rfl, fun ref => (p.move w ref).consistent (h ref), rfl⟩
  obtain ⟨hProgram, -, hWorld⟩ := hSame
  rw [forget, ← hProgram, ← hWorld]

/-- **Machines that scan their histories cannot be told from machines that keep positions.** At
every moment of every execution the two are at the same point of the program, with the same
outcomes behind them, and the worlds differ in nothing but the positions, of which the machines
that scan have none. -/
theorem Config.same_by_scanning {α : Type} (handler : Handler) (p : Program α) (n : Nat) :
    let c := (start p).after .standard handler n
    let c' := (start p).after .scanning handler n
    c' = c.forget ∧ c'.answer? = c.answer? ∧ c'.world.log = c.world.log ∧
      ∀ ref, (c'.world.machine ref).history = (c.world.machine ref).history ∧
        (c'.world.machine ref).current = (c.world.machine ref).current ∧
        ∀ i, ((c'.world.machine ref).state i).visits = [] := by
  have hForget : (start p).after .scanning handler n =
      ((start p).after .standard handler n).forget := after_scanning handler p n
  simp only [hForget]
  refine ⟨trivial, rfl, rfl, fun ref => ?_⟩
  simp only [forget, World.machine_forget, Machine.state_forget]
  exact ⟨rfl, rfl, fun _ => rfl⟩

end RuleMachine
