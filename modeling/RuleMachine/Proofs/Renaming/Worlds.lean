import RuleMachine.Proofs.Contents
import RuleMachine.Proofs.Mentions
import RuleMachine.Proofs.Renaming.Readings

/-!
# Worlds under new numbers

Two worlds that differ by a renaming of what is told apart by numbers stay so, whatever is done
alike in both: questions are answered alike, texts are written alike, and primitive operations
change both in the same way. One of the worlds may contain machines and streams that the other has
not. Neither the numbers nor what was logged before can be told from inside.

* `World.Renamed`: worlds that differ by a renaming.
* `World.Renamed.sameFor`: what is written in the one is written in the other.
* `World.Renamed.answer`: questions are answered alike.
* `World.Renamed.alike`: primitive operations come to the same.
-/

namespace RuleMachine

-- ---------------------------------------------------------------------------
-- Bindings
-- ---------------------------------------------------------------------------

namespace Bindings

variable {α β : Type}

/-- Bindings with everything that is bound changed in some way. -/
def mapValues (f : α → β) (b : Bindings α) : Bindings β := b.map fun (id, a) => (id, f a)

/-- Looking a name up among renamed bindings. -/
theorem get?_mapValues (f : α → β) (b : Bindings α) (id : String) :
    (b.mapValues f).get? id = (b.get? id).map f := by
  induction b with
  | nil => rfl
  | cons e rest ih =>
    obtain ⟨key, a⟩ := e
    simp only [get?, mapValues, List.map_cons, List.lookup_cons] at ih ⊢
    split
    · rfl
    · exact ih

theorem erase_mapValues (f : α → β) (b : Bindings α) (id : String) :
    (b.mapValues f).erase id = (b.erase id).mapValues f := by
  simp only [erase, mapValues, List.filter_map]
  rfl

theorem insert_mapValues (f : α → β) (b : Bindings α) (id : String) (a : α) :
    (b.mapValues f).insert id (f a) = (b.insert id a).mapValues f := by
  rw [insert, erase_mapValues]
  rfl

end Bindings

section

variable (ρ : Renaming)

-- ---------------------------------------------------------------------------
-- What worlds are made of
-- ---------------------------------------------------------------------------

/-- An answer with every value in it renamed. -/
def Reply.rename : Reply → Reply
  | value v => value (v.rename ρ)
  | rules all => rules (all.map (Rule.rename ρ))
  | checkedRule rule outcomes => checkedRule (rule.rename ρ) (outcomes.map (Value.rename ρ))

/-- An event with its machine and its values renamed. Records contain texts and numbers of visits,
and these stay. -/
def Event.rename : Event → Event
  | record m r => record (ρ .machine m) r
  | called f args => called f (args.map (Value.rename ρ))
  | performed label outcome =>
    performed label (mapOutcome (Fault.rename ρ) (Reply.rename ρ) outcome)

/-- An entry of the log with its event renamed, and with the machines that names are bound to. -/
def LogEntry.rename (entry : LogEntry) : LogEntry :=
  { event := entry.event.rename ρ, machines := entry.machines.mapValues (ρ .machine) }

/-- Names are part of the script and stay. What is kept under them is renamed. -/
def Bookkeeping.rename : Bookkeeping → Bookkeeping
  | bind id m => bind id (ρ .machine m)
  | unbind id => unbind id
  | hold id s => hold id (s.rename ρ)
  | openStepper id m inputs => openStepper id (ρ .machine m) (inputs.map (Value.rename ρ))
  | setPhase id phase => setPhase id phase
  | activate m => activate (ρ .machine m)
  | release => release
  | switching m source target => switching (ρ .machine m) (source.rename ρ) (target.rename ρ)
  | noTransition m source => noTransition (ρ .machine m) (source.rename ρ)
  | performed label outcome =>
    performed label (mapOutcome (Fault.rename ρ) (Reply.rename ρ) outcome)

/-- The same question about the renamed machine, state or value. -/
def Query.rename {β : Type} (q : Query β) : Query β :=
  match q with
  | .write x => .write (x.rename ρ)
  | .alive m => .alive (ρ .machine m)
  | .bound id => .bound id
  | .held id => .held id
  | .stepper id => .stepper id
  | .states m => .states (ρ .machine m)
  | .resolve m v => .resolve (ρ .machine m) (v.rename ρ)
  | .name s => .name (s.rename ρ)
  | .actions s slot => .actions (s.rename ρ) slot
  | .rules s => .rules (s.rename ρ)
  | .table m => .table (ρ .machine m)
  | .current m => .current (ρ .machine m)
  | .previous m => .previous (ρ .machine m)
  | .history m => .history (ρ .machine m)
  | .notes m => .notes (ρ .machine m)
  | .done m => .done (ρ .machine m)
  | .strict m => .strict (ρ .machine m)
  | .visitCount s => .visitCount (s.rename ρ)
  | .latest s slot => .latest (s.rename ρ) slot
  | .slots s slot => .slots (s.rename ρ) slot

/-- A primitive operation under new numbers. Readings have to be renamed each in its own way. -/
def Primitive.rename {β : Type} (p : Primitive β) : Primitive β :=
  match p with
  | .fail cause => .fail (cause.rename ρ)
  | .look q => .look (q.rename ρ)
  | .commit s => .commit (s.rename ρ)
  | .reset m => .reset (ρ .machine m)
  | .assign s slot v => .assign (s.rename ρ) slot (v.rename ρ)
  | .assignCurrent m slot v => .assignCurrent (ρ .machine m) slot (v.rename ρ)
  | .adjust m a => .adjust (ρ .machine m) (a.rename ρ)
  | .construct table => .construct (table.rename ρ)
  | .keep b => .keep (b.rename ρ)
  | .read r => .read r
  | .nan => .nan
  | .stream items => .stream (items.map (Value.rename ρ))

end

-- ---------------------------------------------------------------------------
-- Worlds
-- ---------------------------------------------------------------------------

/-- How many NaNs, streams and machines there are. -/
def World.supply (w : World) : Supply
  | .nan => w.nans
  | .stream => w.streams.left.length
  | .machine => w.machines.length

/-- Whether one world is another under new numbers. What was logged before is left out: `base` and
`base'` are the logs that the two had. As long as there is no more of each kind than `last` says,
what is made next corresponds as well. -/
structure World.Renamed (ρ : Renaming) (last : Supply) (base base' : List LogEntry)
    (w w' : World) : Prop where
  machines : Renumbered (ρ .machine) (last .machine) (Machine.rename ρ) w.machines w'.machines
  bound : w'.bound = w.bound.mapValues (ρ .machine)
  pinned : w'.pinned = w.pinned.map (ρ .machine)
  active : w'.active = w.active.map (ρ .machine)
  held : w'.held = w.held.mapValues (StateRef.rename ρ)
  steppers : w'.steppers = w.steppers.mapValues (Stepper.rename ρ)
  streams : w.streams.Renamed ρ (last .stream) w'.streams
  nans : ∀ k, w.nans + k < last .nan → ρ .nan (w.nans + k) = w'.nans + k
  log : ∃ entries, w.log.toList = base ++ entries ∧
    w'.log.toList = base' ++ entries.map (LogEntry.rename ρ)

/-- Whether no known state could be taken for one of a machine that is yet to be built: either it is
of one with a number below the last one, or machines keep their numbers. -/
def Renaming.Apart (ρ : Renaming) (last : Supply) (known : Value → Prop) : Prop :=
  (∀ s : StateRef, known (.state s) → s.machine < last .machine) ∨ ∀ n, ρ .machine n = n

namespace World.Renamed

variable {ρ : Renaming} {last : Supply} {base base' : List LogEntry} {w w' : World}
  (h : Renamed ρ last base base' w w')
include h

theorem machine (m : MachineRef) : w'.machine (ρ .machine m) = (w.machine m).rename ρ := by
  rw [World.machine, h.machines.get, World.machine]
  cases w.machines[m]? <;> rfl

theorem state (s : StateRef) : w'.state (s.rename ρ) = (w.state s).rename ρ := by
  show (w'.machine (ρ .machine s.machine)).state s.index = _
  rw [h.machine, Machine.state_rename, World.state]

theorem name (s : StateRef) : (w'.state (s.rename ρ)).name = (w.state s).name.rename ρ := by
  rw [h.state]
  rfl

theorem visits (s : StateRef) : (w'.state (s.rename ρ)).visits = (w.state s).visits := by
  rw [h.state]
  rfl

/-- A machine is alive under its new number if and only if it is under the old one. -/
theorem alive (m : MachineRef) : w'.alive (ρ .machine m) = w.alive m := by
  have hSame : (fun n => ρ .machine n == ρ .machine m) = fun n => n == m :=
    funext fun _ => (ρ .machine).injective.beq_eq
  have hBound : w'.bound.any (fun e => e.2 == ρ .machine m) = w.bound.any fun e => e.2 == m := by
    rw [h.bound, Bindings.mapValues, List.any_map]
    exact congrArg (fun same => w.bound.any (same ∘ Prod.snd)) hSame
  have hContains (refs : List MachineRef) :
      (refs.map (ρ .machine)).contains (ρ .machine m) = refs.contains m := by
    rw [List.contains_eq_any_beq, List.contains_eq_any_beq, List.any_map]
    refine congrArg refs.any (funext fun n => ?_)
    exact (ρ .machine).injective.beq_eq
  rw [World.alive, hBound, h.pinned, h.active, hContains, hContains, World.alive]

/-- The current state of a machine. -/
theorem current? (m : MachineRef) :
    w'.current? (ρ .machine m) = (w.current? m).map (StateRef.rename ρ) := by
  rw [World.current?, h.machine, World.current?, Option.map_map]
  rfl

theorem currentName (m : MachineRef) :
    w'.currentName (ρ .machine m) = (w.currentName m).rename ρ := by
  rw [World.currentName, h.machine, Machine.currentName?_rename, World.currentName]
  cases (w.machine m).currentName? <;> rfl

/-- Whatever is shown of one world is shown alike of the other. -/
theorem shownAlike (r : Value) : w.ShownAlike ρ w' r := by
  cases r with
  | state s => exact h.name s
  | machine m => exact ⟨by rw [h.machine, Machine.length_states_rename], h.currentName m⟩
  | _ => trivial

/-- **What is written in one world is written in the other.** -/
theorem sameFor (values : List Value) : w.refText.SameFor w'.refText ρ values :=
  sameFor_alike (fun _ _ r _ => h.shownAlike r) fun _ _ _ _ m _ => h.machines.lt_iff m

/-- **Texts are the same,** as the text of a machine depends on where it stands and not on its
number. -/
theorem plain (v : Value) : w'.plain (v.rename ρ) = w.plain v :=
  Value.plain_rename (h.sameFor [v] v List.mem_cons_self)

theorem fault (cause : Cause) : w'.fault (cause.rename ρ) = (w.fault cause).rename ρ :=
  congrArg (Fault.mk (cause.rename ρ)) (Cause.message_rename (h.sameFor cause.values))

/-- What depends on whether a machine is alive comes to the same. -/
theorem whileAlive {α : Type} (g : α → α) (s : StateRef) (a : α) :
    w'.whileAlive (s.rename ρ) (g a) = mapOutcome (Cause.rename ρ) g (w.whileAlive s a) := by
  have hAlive : w'.alive (s.rename ρ).machine = w.alive s.machine := h.alive s.machine
  rw [World.whileAlive, hAlive, h.name, World.whileAlive]
  split <;> rfl

/-- **Questions are answered alike.** -/
theorem answer {β : Type} (q : Query β) :
    (q.rename ρ).answer w' = mapOutcome (Cause.rename ρ) (q.contents.rename ρ) (q.answer w) := by
  have hMachine (m : MachineRef) : w'.machine (ρ .machine m) = (w.machine m).rename ρ :=
    h.machine m
  have hHome (s : StateRef) : w'.machine (s.rename ρ).machine = (w.machine s.machine).rename ρ :=
    h.machine s.machine
  -- what is found in a machine is a place in it, which becomes a state of the machine that was
  -- asked
  have hPlace (m : MachineRef) (place : Option Nat) :
      place.map (fun index => { machine := ρ .machine m, index }) =
        (place.map fun index => { machine := m, index }).map (StateRef.rename ρ) := by
    cases place <;> rfl
  have hPlaces (m : MachineRef) (places : List Nat) :
      places.map (fun index => { machine := ρ .machine m, index }) =
        (places.map fun index => { machine := m, index }).map (StateRef.rename ρ) := by
    rw [List.map_map]
    rfl
  cases q with
  | write x => exact congrArg Except.ok (Writing.text_rename (h.sameFor x.values))
  | alive m => exact congrArg Except.ok (h.alive m)
  | bound id =>
    refine congrArg Except.ok ?_
    rw [h.bound]
    exact Bindings.get?_mapValues _ _ id
  | held id =>
    refine congrArg Except.ok ?_
    rw [h.held]
    exact Bindings.get?_mapValues _ _ id
  | stepper id =>
    refine congrArg Except.ok ?_
    rw [h.steppers]
    exact Bindings.get?_mapValues _ _ id
  | states m =>
    simp only [Query.rename, Query.answer, hMachine, Machine.length_states_rename]
    exact congrArg Except.ok (hPlaces m _)
  | resolve m v =>
    simp only [Query.rename, Query.answer, hMachine, Machine.resolve?_rename]
    exact congrArg Except.ok (hPlace m _)
  | name s => exact congrArg Except.ok (h.name s)
  | actions s slot =>
    simp only [Query.rename, Query.answer, h.state, State.actions_rename]
    rfl
  | rules s =>
    simp only [Query.rename, Query.answer, h.state]
    rfl
  | table m =>
    simp only [Query.rename, Query.answer, hMachine, Machine.table_rename]
    rfl
  | current m => exact congrArg Except.ok (h.current? m)
  | previous m =>
    simp only [Query.rename, Query.answer, hMachine, Machine.previous?_rename]
    exact congrArg Except.ok (hPlace m _)
  | history m | notes m | done m | strict m =>
    simp only [Query.rename, Query.answer, hMachine]
    rfl
  | visitCount s =>
    simp only [Query.rename, Query.answer, h.visits]
    rfl
  | latest s slot =>
    simp only [Query.rename, Query.answer, World.latest, h.visits, hHome]
    split
    · rfl
    · rw [show (s.rename ρ).index = s.index from rfl, Machine.latest_rename]
      exact h.whileAlive (Value.rename ρ) s _
  | slots s slot =>
    simp only [Query.rename, Query.answer, World.slots, hHome]
    rw [show (s.rename ρ).index = s.index from rfl, Machine.slots_rename]
    exact h.whileAlive (List.map (Value.rename ρ)) s _

-- ---------------------------------------------------------------------------
-- Changes
-- ---------------------------------------------------------------------------

theorem modifyMachine (m : MachineRef) {f f' : Machine → Machine}
    (hf : ∀ m : Machine, f' (m.rename ρ) = (f m).rename ρ) :
    Renamed ρ last base base' (w.modifyMachine m f) (w'.modifyMachine (ρ .machine m) f') :=
  { h with machines := h.machines.modify m hf }

/-- Logging the renamed event. The entry contains the renamed bindings as well. -/
theorem emit (event : Event) :
    Renamed ρ last base base' (w.emit event) (w'.emit (event.rename ρ)) :=
  { h with
    log := by
      obtain ⟨entries, hLog, hLog'⟩ := h.log
      refine ⟨entries ++ [{ event, machines := w.bound }], ?_, ?_⟩
      · simp only [World.emit, Array.toList_push, hLog, List.append_assoc]
      · simp only [World.emit, Array.toList_push, hLog', h.bound, List.append_assoc,
          List.map_append]
        rfl }

theorem record (m : MachineRef) (r : Record) :
    Renamed ρ last base base' (w.record m r) (w'.record (ρ .machine m) r) :=
  h.emit (.record m r)

/-- Whether a state is one of a machine. -/
theorem declares (s : StateRef) : w'.declares (s.rename ρ) = w.declares s := by
  have hMachine : w'.machine (s.rename ρ).machine = (w.machine s.machine).rename ρ :=
    h.machine s.machine
  rw [World.declares, hMachine, Machine.length_states_rename, World.declares]
  rfl

/-- Entering a state is recorded with the same text and the same number. -/
theorem commit (s : StateRef) :
    Renamed ρ last base base' (w.commit s) (w'.commit (s.rename ρ)) := by
  simp only [World.commit, h.declares]
  split
  · have hEntered : Renamed ρ last base base'
        (w.modifyMachine s.machine fun m => m.enter s.index)
        (w'.modifyMachine (s.rename ρ).machine fun m => m.enter (s.rename ρ).index) :=
      h.modifyMachine s.machine fun m => m.enter_rename ρ s.index
    rw [hEntered.name, hEntered.plain, hEntered.visits]
    exact hEntered.record _ _
  · exact h

theorem reset (m : MachineRef) :
    Renamed ρ last base base' (w.reset m) (w'.reset (ρ .machine m)) :=
  (h.modifyMachine m fun m => m.reset_rename ρ).record m .reset

/-- Assigning to a slot comes to the same in both. -/
theorem assign (s : StateRef) (slot : Slot) (v : Value) :
    (w'.update (w'.assign (s.rename ρ) slot (v.rename ρ))).1 =
        mapOutcome (Cause.rename ρ) id (w.update (w.assign s slot v)).1 ∧
      Renamed ρ last base base' (w.update (w.assign s slot v)).2
        (w'.update (w'.assign (s.rename ρ) slot (v.rename ρ))).2 := by
  have hAlive : w'.alive (s.rename ρ).machine = w.alive s.machine := h.alive s.machine
  simp only [World.assign, World.whileAlive, h.visits, h.name, hAlive]
  split
  · exact ⟨rfl, h⟩
  · split
    · exact ⟨rfl, h.modifyMachine s.machine fun m => m.setSlot_rename ρ s.index slot v⟩
    · exact ⟨rfl, h⟩

/-- Writing to the current state fails in both worlds or in none. -/
theorem assignCurrent (m : MachineRef) (slot : Slot) (v : Value) :
    (w'.update (w'.assignCurrent (ρ .machine m) slot (v.rename ρ))).1 =
        mapOutcome (Cause.rename ρ) id (w.update (w.assignCurrent m slot v)).1 ∧
      Renamed ρ last base base' (w.update (w.assignCurrent m slot v)).2
        (w'.update (w'.assignCurrent (ρ .machine m) slot (v.rename ρ))).2 := by
  simp only [World.assignCurrent, h.current?]
  cases w.current? m with
  | some s => exact h.assign s slot v
  | none => exact ⟨rfl, h⟩

/-- No known state is taken for one of a machine that is yet to be built. -/
theorem apart {known : Value → Prop} (hApart : ρ.Apart last known) {s : StateRef}
    (hs : known (.state s)) :
    ρ .machine s.machine = w'.machines.length ↔ s.machine = w.machines.length := by
  rcases hApart with hBelow | hSame
  · -- a machine that comes next has the next number in both worlds, unless no more may be made
    have hLt : s.machine < last .machine := hBelow s hs
    by_cases hMore : w.machines.length < last .machine
    · have hNext : ρ .machine w.machines.length = w'.machines.length := h.machines.next 0 hMore
      rw [← hNext]
      exact (ρ .machine).injective.eq_iff
    · have hBuilt : s.machine < w.machines.length :=
        Nat.lt_of_lt_of_le hLt (Nat.le_of_not_lt hMore)
      have hBuilt' := (h.machines.lt_iff s.machine).mpr hBuilt
      exact ⟨fun hEq => absurd hBuilt' (hEq ▸ Nat.lt_irrefl _),
        fun hEq => absurd hBuilt (hEq ▸ Nat.lt_irrefl _)⟩
  · have hSameLength (n : Nat) : n < w'.machines.length ↔ n < w.machines.length := by
      rw [← h.machines.lt_iff n, hSame]
    have hLengths : w'.machines.length = w.machines.length :=
      Nat.le_antisymm (Nat.le_of_not_lt fun hLt => Nat.lt_irrefl _ ((hSameLength _).mp hLt))
        (Nat.le_of_not_lt fun hLt => Nat.lt_irrefl _ ((hSameLength _).mpr hLt))
    rw [hSame, hLengths]

/-- Building a machine comes to the same in both, as long as the number that it gets is below the
last one or it is not built. -/
theorem construct {known : Value → Prop} (hApart : ρ.Apart last known) (hw : w.Within known)
    {table : Value} (hTable : table.Within known)
    (hLast : (w.construct table).2.machines.length ≤ last .machine) :
    (w'.construct (table.rename ρ)).1 =
        mapOutcome (Cause.rename ρ) (ρ .machine) (w.construct table).1 ∧
      Renamed ρ last base base' (w.construct table).2 (w'.construct (table.rename ρ)).2 := by
  rcases hRead : (readTable w.machines.length table).result w.streams with ⟨cause | m, t⟩
  · -- no machine is built, and none that is known could be taken for the one that was to be built
    let move (s : StateRef) : StateRef := { machine := w'.machines.length, index := s.index }
    have hRead' : Reading.AlikeOn known ρ (Cause.rename ρ) (Machine.carry ρ move)
        (readTable w.machines.length table) (readTable w'.machines.length (table.rename ρ)) :=
      readTable_alikeOn (fun _ => rfl) (fun _ hs => h.apart hApart hs) hTable
    obtain ⟨hResult, hStreams⟩ := hRead'.same hw.streams h.streams
    rcases hRead' : (readTable w'.machines.length (table.rename ρ)).result w'.streams with ⟨x, t'⟩
    rw [hRead, hRead'] at hResult hStreams
    obtain rfl : x = .error (cause.rename ρ) := hResult
    simp only [World.construct, hRead, hRead']
    exact ⟨rfl, { h with streams := hStreams }⟩
  · -- the machine gets the next number, which corresponds
    have hSelf : ρ .machine w.machines.length = w'.machines.length := by
      refine h.machines.next 0 (Nat.lt_of_lt_of_le ?_ hLast)
      simp [World.construct, hRead, World.record, World.emit]
    have hRead' : Reading.AlikeOn known ρ (Cause.rename ρ) (Machine.carry ρ (StateRef.rename ρ))
        (readTable w.machines.length table) (readTable w'.machines.length (table.rename ρ)) :=
      readTable_alikeOn (fun _ => congrArg (StateRef.mk · _) hSelf)
        (fun s _ => by rw [← hSelf]; exact (ρ .machine).injective.eq_iff) hTable
    obtain ⟨hResult, hStreams⟩ := hRead'.same hw.streams h.streams
    rcases hRead' : (readTable w'.machines.length (table.rename ρ)).result w'.streams with ⟨x, t'⟩
    rw [hRead, hRead'] at hResult hStreams
    obtain rfl : x = .ok (m.rename ρ) := hResult
    have hBuilt : Renamed ρ last base base'
        { w with streams := t, machines := w.machines ++ [m] }
        { w' with streams := t', machines := w'.machines ++ [m.rename ρ] } :=
      { h with streams := hStreams, machines := h.machines.append m hSelf }
    simp only [World.construct, hRead, hRead', Machine.length_states_rename,
      Machine.ruleCount_rename]
    refine ⟨congrArg Except.ok hSelf.symm, ?_⟩
    rw [← hSelf]
    exact hBuilt.record _ _

/-- Bookkeeping keeps the renamed things under the same names. -/
theorem keep (b : Bookkeeping) :
    Renamed ρ last base base' (b.apply w) ((b.rename ρ).apply w') := by
  -- what is kept is renamed, and the names under which it is kept are not
  cases b with
  | bind id m =>
    refine { h with bound := ?_ }
    simp only [Bookkeeping.apply, Bookkeeping.rename, h.bound, Bindings.insert_mapValues]
  | unbind id =>
    refine { h with bound := ?_ }
    simp only [Bookkeeping.apply, Bookkeeping.rename, h.bound, Bindings.erase_mapValues]
  | hold id s =>
    refine { h with held := ?_ }
    simp only [Bookkeeping.apply, Bookkeeping.rename, h.held, Bindings.insert_mapValues]
  | openStepper id m inputs =>
    refine { h with pinned := congrArg (ρ .machine m :: ·) h.pinned, steppers := ?_ }
    simp only [Bookkeeping.apply, Bookkeeping.rename, h.steppers]
    exact Bindings.insert_mapValues (Stepper.rename ρ) w.steppers id
      { machine := m, inputs, phase := .fresh }
  | setPhase id phase =>
    simp only [Bookkeeping.apply, Bookkeeping.rename, h.steppers, Bindings.get?_mapValues]
    cases w.steppers.get? id with
    | none => exact h
    | some s =>
      exact { h with
        steppers := Bindings.insert_mapValues (Stepper.rename ρ) w.steppers id { s with phase } }
  | activate m => exact { h with active := congrArg (ρ .machine m :: ·) h.active }
  | release =>
    refine { h with active := ?_ }
    simp only [Bookkeeping.apply, Bookkeeping.rename, h.active, List.map_tail]
  | switching m source target =>
    simp only [Bookkeeping.apply, Bookkeeping.rename, h.plain]
    exact h.record _ _
  | noTransition m source =>
    simp only [Bookkeeping.apply, Bookkeeping.rename, h.plain]
    exact h.record _ _
  | performed label outcome => exact h.emit (.performed label outcome)

end World.Renamed

-- ---------------------------------------------------------------------------
-- Primitive operations
-- ---------------------------------------------------------------------------

/-- Whether a primitive operation reads a definition. -/
def Primitive.isReading {β : Type} (p : Primitive β) : Bool :=
  match p with
  | .read _ => true
  | _ => false

/-- What comes of a primitive operation. -/
def Primitive.outcome {β : Type} (p : Primitive β) (w : World) : Except Fault β :=
  (p.effect w).1.mapError w.fault

/-- A primitive operation that comes to a result, and not to a failure, has answered with it. -/
theorem Primitive.answer_of_outcome {β : Type} {p : Primitive β} {w : World} {b : β}
    (h : p.outcome w = .ok b) : (p.effect w).1 = .ok b := by
  unfold Primitive.outcome at h
  cases hAnswer : (p.effect w).1 with
  | ok a =>
    rw [hAnswer] at h
    exact congrArg Except.ok (Except.ok.inj h)
  | error cause =>
    rw [hAnswer] at h
    cases h

/-- Whether primitive operations come to the same in two worlds, up to a renaming of what they
answer, and leave worlds that differ by the renaming. -/
structure Primitive.Alike (ρ : Renaming) (last : Supply) (base base' : List LogEntry) {β : Type}
    (g : β → β) (p p' : Primitive β) (w w' : World) : Prop where
  answer : (p'.effect w').1 = mapOutcome (Cause.rename ρ) g (p.effect w).1
  worlds : World.Renamed ρ last base base' (p.effect w).2 (p'.effect w').2

namespace World.Renamed

variable {ρ : Renaming} {last : Supply} {base base' : List LogEntry} {w w' : World}
  (h : Renamed ρ last base base' w w')
include h

/-- **Primitive operations come to the same,** as long as they make no more than there is to be. -/
theorem alike {known : Value → Prop} (hApart : ρ.Apart last known) (hw : w.Within known)
    {β : Type} {p : Primitive β} (hp : p.Within known)
    (hRead : p.isReading = false) (hLast : (p.effect w).2.supply ≤ last) :
    Primitive.Alike ρ last base base' (p.contents.rename ρ) p (p.rename ρ) w w' := by
  cases p with
  | fail cause => exact ⟨rfl, h⟩
  | look q => exact ⟨h.answer q, h⟩
  | commit s => exact ⟨rfl, h.commit s⟩
  | reset m => exact ⟨rfl, h.reset m⟩
  | assign s slot v =>
    obtain ⟨hAnswer, hAfter⟩ := h.assign s slot v
    exact ⟨hAnswer, hAfter⟩
  | assignCurrent m slot v =>
    obtain ⟨hAnswer, hAfter⟩ := h.assignCurrent m slot v
    exact ⟨hAnswer, hAfter⟩
  | adjust m a => exact ⟨rfl, h.modifyMachine m fun machine => a.apply_rename ρ machine⟩
  | construct table =>
    obtain ⟨hAnswer, hAfter⟩ := h.construct hApart hw hp (hLast .machine)
    exact ⟨hAnswer, hAfter⟩
  | keep b => exact ⟨rfl, h.keep b⟩
  | read r => cases hRead
  -- what is made next has the same number up to the renaming, as long as no more is made than is
  -- allowed
  | nan =>
    have hNew : w.nans + 0 < last .nan := hLast .nan
    refine ⟨congrArg (fun tag => Except.ok (Value.nan tag)) (h.nans 0 hNew).symm, ?_⟩
    refine { h with nans := fun k hk => ?_ }
    have hNext := h.nans (1 + k) (by rwa [← Nat.add_assoc])
    rwa [← Nat.add_assoc, ← Nat.add_assoc] at hNext
  | stream items =>
    have hCount : (w.streams.left ++ [items]).length ≤ last .stream := hLast .stream
    rw [List.length_append] at hCount
    obtain ⟨hAnswer, hStreams⟩ := h.streams.add items hCount
    exact ⟨congrArg Except.ok hAnswer, { h with streams := hStreams }⟩

/-- Readings come to the same if they are alike. -/
theorem alike_read {known : Value → Prop} (hw : w.Within known) {β : Type} {g : β → β}
    {r r' : Reading Cause β} (hr : r.AlikeOn known ρ (Cause.rename ρ) g r') :
    Primitive.Alike ρ last base base' g (.read r) (.read r') w w' := by
  obtain ⟨hAnswer, hStreams⟩ := hr.same hw.streams h.streams
  exact ⟨hAnswer, { h with streams := hStreams }⟩

/-- What comes of them is the same as well, with the messages of failures. -/
theorem outcome {β : Type} {g : β → β} {p p' : Primitive β}
    (hAlike : p.Alike ρ last base base' g p' w w') :
    p'.outcome w' = mapOutcome (Fault.rename ρ) g (p.outcome w) := by
  rw [Primitive.outcome, hAlike.answer, Primitive.outcome]
  cases (p.effect w).1 with
  | ok b => rfl
  | error cause => exact congrArg Except.error (h.fault cause)

end World.Renamed

end RuleMachine
