import RuleMachine.Proofs.Renaming.Machines
import RuleMachine.Proofs.Within

/-!
# What there is in a world

Everything in a world that holds values or leads to machines is made of these part by part. So it is
renamed part by part, and it mentions only what is known if its parts do.

Primitive operations make nothing up. What they answer, and what they leave in the world, mentions
what was there and what they were given, and the machine that is built if one is.

* `Contents`: where the values are in the things of some type.
* `Query.contents`, `Primitive.contents`: where they are in answers.
* `World.Within`: a world that mentions only what is known.
* `Primitive.effect_within`: primitive operations keep it so.
-/

namespace RuleMachine

/-- Where the values, the states and the machines are in the things of some type: how these look
under new numbers, and whether they mention only what is known. If everything is known they do. -/
structure Contents (α : Type) where
  rename : Renaming → α → α
  Within : (Value → Prop) → α → Prop
  within_any : ∀ {known : Value → Prop}, (∀ r, known r) → ∀ a, Within known a

-- ---------------------------------------------------------------------------
-- Parts
-- ---------------------------------------------------------------------------

/-- Whether the name in a row of a static table is known, and the names of the targets of its rules.
-/
def Machine.Row.Within (known : Value → Prop) (row : Machine.Row) : Prop :=
  ∀ v ∈ row.values, v.Within known

/-- A stepper on the renamed machine, with the renamed inputs. How far it has come stays the same.
-/
def Stepper.rename (ρ : Renaming) (s : Stepper) : Stepper :=
  { s with machine := ρ .machine s.machine, inputs := s.inputs.map (Value.rename ρ) }

/-- Whether the machine of a stepper is known, and what its inputs mention. -/
structure Stepper.Within (known : Value → Prop) (s : Stepper) : Prop where
  machine : known (.machine s.machine)
  inputs : ∀ v ∈ s.inputs, v.Within known

namespace Contents

variable {α : Type}

/-- What holds no values and leads to no machine. -/
def plain : Contents α where
  rename _ a := a
  Within _ _ := True
  within_any _ _ := trivial

/-- A value as it is. -/
def value : Contents Value where
  rename := Value.rename
  Within := Value.Within
  within_any h := Value.within_any h

/-- A machine. It is known if it is known as a value. -/
def machine : Contents MachineRef where
  rename ρ := ρ .machine
  Within known m := known (.machine m)
  within_any h m := h (.machine m)

/-- A state. It is known if it is known as a value. -/
def state : Contents StateRef where
  rename := StateRef.rename
  Within known s := known (.state s)
  within_any h s := h (.state s)

/-- Something that may be missing. What is missing is known. -/
def option (c : Contents α) : Contents (Option α) where
  rename ρ := Option.map (c.rename ρ)
  Within known o := ∀ a ∈ o, c.Within known a
  within_any h _ a _ := c.within_any h a

/-- Several of a kind. -/
def list (c : Contents α) : Contents (List α) where
  rename ρ := List.map (c.rename ρ)
  Within known as := ∀ a ∈ as, c.Within known a
  within_any h _ a _ := c.within_any h a

/-- The entries of a map, keys and values. -/
def entries : Contents (List (Value × Value)) where
  rename ρ := List.map (Value.renamePair ρ)
  Within known := Entries.Both (Value.Within known)
  within_any h _ e _ := ⟨e.1.within_any h, e.2.within_any h⟩

/-- A predicate. Only a constant one contains a value. -/
def predicate : Contents Predicate where
  rename := Predicate.rename
  Within := Predicate.Within
  within_any h p := by
    cases p with
    | function f => trivial
    | constant v => exact v.within_any h

/-- A rule with its target and, if its predicate is a constant, with that. -/
def rule : Contents Rule where
  rename := Rule.rename
  Within := Rule.Within
  within_any h rule := ⟨h _, predicate.within_any h rule.predicate⟩

/-- A visit with its name and both slots. -/
def visit : Contents Visit where
  rename := Visit.rename
  Within := Visit.Within
  within_any h visit :=
    ⟨visit.name.within_any h, visit.result.within_any h, visit.message.within_any h⟩

/-- A row of a static table. -/
def row : Contents Machine.Row where
  rename := Machine.Row.rename
  Within := Machine.Row.Within
  within_any h _ v _ := v.within_any h

/-- A stepper with its machine and its inputs. -/
def stepper : Contents Stepper where
  rename := Stepper.rename
  Within := Stepper.Within
  within_any h _ := ⟨h _, fun v _ => v.within_any h⟩

/-- The options of a machine. The only value among them is the `done` one. -/
def options : Contents Options where
  rename := Options.rename
  Within known o := o.done.Within known
  within_any h o := o.done.within_any h

end Contents

-- ---------------------------------------------------------------------------
-- Questions and operations
-- ---------------------------------------------------------------------------

/-- Where the values are in the answer to a question. -/
def Query.contents {β : Type} (q : Query β) : Contents β :=
  match q with
  | .write _ | .alive _ | .actions _ _ | .strict _ | .visitCount _ => .plain
  | .bound _ => .option .machine
  | .held _ | .resolve _ _ | .current _ | .previous _ => .option .state
  | .stepper _ => .option .stepper
  | .states _ => .list .state
  | .name _ | .latest _ _ => .value
  | .rules _ => .list .rule
  | .table _ => .list .row
  | .history _ => .list .visit
  | .notes _ => .entries
  | .done _ => .predicate
  | .slots _ _ => .list .value

/-- Where the values are in the answer of a primitive operation. Readings answer with anything. -/
def Primitive.contents {β : Type} (p : Primitive β) : Contents β :=
  match p with
  | .look q => q.contents
  | .construct _ => .machine
  | .nan | .stream _ => .value
  | .fail _ | .commit _ | .reset _ | .assign _ _ _ | .assignCurrent _ _ _ | .adjust _ _ | .keep _
  | .read _ => .plain

section

variable (known : Value → Prop)

/-- Whether a question is about what is known. -/
def Query.Within {β : Type} (q : Query β) : Prop :=
  match q with
  | .write x => ∀ v ∈ x.values, v.Within known
  | .bound _ | .held _ | .stepper _ => True
  | .alive m | .states m | .table m | .current m | .previous m | .history m | .notes m | .done m
  | .strict m => known (.machine m)
  | .resolve m v => known (.machine m) ∧ v.Within known
  | .name s | .actions s _ | .rules s | .visitCount s | .latest s _ | .slots s _ =>
    known (.state s)

/-- Whether the values that an adjustment puts into a machine are known. -/
def Adjustment.Within (a : Adjustment) : Prop :=
  match a with
  | .strict _ | .eraseNote _ => True
  | .done p => p.Within known
  | .note key v => key.Within known ∧ v.Within known

/-- Whether the machines, states and values are known that bookkeeping keeps. What it only writes
into the log is not kept. -/
def Bookkeeping.Within (b : Bookkeeping) : Prop :=
  match b with
  | .bind _ m | .activate m => known (.machine m)
  | .hold _ s => known (.state s)
  | .openStepper _ m inputs => known (.machine m) ∧ ∀ v ∈ inputs, v.Within known
  | .unbind _ | .setPhase _ _ | .release | .switching _ _ _ | .noTransition _ _
  | .performed _ _ => True

/-- Whether a primitive operation is about what is known. -/
def Primitive.Within {β : Type} (p : Primitive β) : Prop :=
  match p with
  | .fail _ | .nan => True
  | .look q => q.Within known
  | .commit s => known (.state s)
  | .reset m => known (.machine m)
  | .assign s _ v => known (.state s) ∧ v.Within known
  | .assignCurrent m _ v => known (.machine m) ∧ v.Within known
  | .adjust m a => known (.machine m) ∧ a.Within known
  | .construct table => table.Within known
  | .keep b => b.Within known
  | .read r => r.Drains known fun _ => True
  | .stream items => ∀ v ∈ items, v.Within known

end

variable {known : Value → Prop}

-- ---------------------------------------------------------------------------
-- Machines
-- ---------------------------------------------------------------------------

theorem Visit.Within.get {visit : Visit} (h : visit.Within known) (slot : Slot) :
    (visit.get slot).Within known := by
  cases slot with
  | result => exact h.result
  | message => exact h.message

/-- A slot into which a known value is put makes no other values known or unknown. -/
theorem Visit.Within.put {visit : Visit} (h : visit.Within known) (slot : Slot) {v : Value}
    (hv : v.Within known) : (visit.put slot v).Within known := by
  cases slot with
  | result => exact { h with result := hv }
  | message => exact { h with message := hv }

theorem Visit.Within.slots {visit : Visit} (h : visit.Within known) :
    visit.slots.Within known := by
  refine Value.within_map.mpr (List.forall_mem_cons.mpr ⟨⟨Value.within_text _, h.result⟩, ?_⟩)
  exact List.forall_mem_singleton.mpr ⟨Value.within_text _, h.message⟩

/-- What is true of all items, and stays true of one that is changed, is true of all of them after
the change. -/
theorem forall_mem_modify {α : Type} {P : α → Prop} {items : List α} {f : α → α} {index : Nat}
    (h : ∀ a ∈ items, P a) (hf : ∀ a, P a → P (f a)) : ∀ a ∈ items.modify index f, P a := by
  intro a ha
  obtain ⟨i, hi⟩ := List.mem_iff_getElem?.mp ha
  rw [List.getElem?_modify] at hi
  obtain ⟨b, hb, rfl⟩ := Option.map_eq_some_iff.mp hi
  have hOld := h b (List.mem_of_getElem? hb)
  split
  · exact hf b hOld
  · exact hOld

namespace Machine.Within

variable {m : Machine} (h : m.Within known)
include h

/-- The states of a known machine are known, also the one that stands where there is none. -/
theorem state (index : Nat) : (m.state index).Within known := by
  rw [Machine.state]
  cases hState : m.states[index]? with
  | none => exact ⟨Value.within_null, List.forall_mem_nil _⟩
  | some s => exact h.states s (List.mem_of_getElem? hState)

theorem nameOf (index : Nat) : (m.nameOf index).Within known := (h.state index).name

theorem visitsTo (index : Nat) : ∀ visit ∈ m.visitsTo index, visit.Within known := by
  intro visit hVisit
  obtain ⟨position, -, hPosition⟩ := List.mem_filterMap.mp hVisit
  exact h.history visit (List.mem_of_getElem? hPosition)

theorem latest (index : Nat) (slot : Slot) : (m.latest index slot).Within known := by
  rw [Machine.latest]
  cases hLast : (m.visitsTo index).getLast? with
  | none => exact Value.within_null
  | some visit => exact (h.visitsTo index visit (List.mem_of_getLast? hLast)).get slot

theorem slots (index : Nat) (slot : Slot) : ∀ v ∈ m.slots index slot, v.Within known := by
  intro v hv
  obtain ⟨visit, hVisit, rfl⟩ := List.mem_map.mp hv
  exact (h.visitsTo index visit hVisit).get slot

/-- The static table has no values but names of states and of targets of rules, and these are those
of the machine. -/
theorem table : ∀ row ∈ m.table, row.Within known := by
  intro row hRow v hv
  obtain ⟨s, hs, rfl⟩ := List.mem_map.mp hRow
  obtain rfl | hv := List.mem_cons.mp hv
  · exact (h.states s hs).name
  · obtain ⟨target, hTarget, rfl⟩ := List.mem_map.mp hv
    obtain ⟨rule, -, rfl⟩ := List.mem_map.mp hTarget
    exact h.nameOf rule.target.index

/-! Changes keep to what is known. -/

/-- Entering a state adds a visit, which contains nothing but the name of the state. -/
theorem enter (index : Nat) : (m.enter index).Within known := by
  unfold Machine.enter
  split
  · refine { h with states := ?_, history := ?_ }
    · exact forall_mem_modify h.states fun s hs => ⟨hs.name, hs.rules⟩
    · refine List.forall_mem_append.mpr ⟨h.history, List.forall_mem_singleton.mpr ?_⟩
      exact ⟨h.nameOf index, Value.within_null, Value.within_null⟩
  · exact h

/-- A reset forgets values and adds none. -/
theorem reset : m.reset.Within known := by
  refine ⟨fun s hs => ?_, List.forall_mem_nil _, List.forall_mem_nil _, h.done⟩
  obtain ⟨declared, hDeclared, rfl⟩ := List.mem_map.mp hs
  exact ⟨(h.states declared hDeclared).name, (h.states declared hDeclared).rules⟩

/-- Only the value that is put into a slot has to be known in addition. -/
theorem setSlot (index : Nat) (slot : Slot) {v : Value} (hv : v.Within known) :
    (m.setSlot index slot v).Within known := by
  unfold Machine.setSlot
  split
  · exact { h with history := forall_mem_modify h.history fun visit hVisit => hVisit.put slot hv }
  · exact h

theorem adjust {a : Adjustment} (ha : a.Within known) : (a.apply m).Within known := by
  cases a with
  | strict b => exact { h with }
  | done p => exact { h with done := ha }
  | note key v => exact { h with notes := Entries.Both.insert h.notes ha.1 ha.2 }
  | eraseNote key => exact { h with notes := Entries.Both.erase h.notes key }

end Machine.Within

-- ---------------------------------------------------------------------------
-- Worlds
-- ---------------------------------------------------------------------------

/-- Assigning to a slot of a state does that or nothing. -/
theorem World.update_assign (w : World) (s : StateRef) (slot : Slot) (v : Value) :
    (w.update (w.assign s slot v)).2 = w ∨
      (w.update (w.assign s slot v)).2 =
        w.modifyMachine s.machine fun m => m.setSlot s.index slot v := by
  simp only [assign, whileAlive]
  split
  · exact .inl rfl
  · split
    · exact .inr rfl
    · exact .inl rfl

/-- **Whether everything in a world mentions only what is known.** What was logged is not in it. -/
structure World.Within (known : Value → Prop) (w : World) : Prop where
  machines : ∀ m ∈ w.machines, m.Within known
  bound : ∀ e ∈ w.bound, known (.machine e.2)
  held : ∀ e ∈ w.held, known (.state e.2)
  steppers : ∀ e ∈ w.steppers, e.2.Within known
  streams : w.streams.Within known

/-- In the empty world there is nothing to be known. -/
theorem World.within_empty : World.empty.Within known :=
  ⟨List.forall_mem_nil _, List.forall_mem_nil _, List.forall_mem_nil _, List.forall_mem_nil _,
    fun _ _ hv => absurd hv List.not_mem_nil⟩

namespace Bindings

variable {α : Type} {P : α → Prop} {b : Bindings α}

/-- What a name is bound to is among the bindings, under whatever name it was found. -/
theorem get?_mem {id : String} {a : α} (h : b.get? id = some a) : ∃ key, (key, a) ∈ b := by
  induction b with
  | nil => cases h
  | cons e rest ih =>
    obtain ⟨key, other⟩ := e
    rw [get?, List.lookup_cons] at h
    split at h
    · obtain rfl := Option.some.inj h
      exact ⟨key, List.mem_cons_self⟩
    · obtain ⟨other, hOther⟩ := ih h
      exact ⟨other, List.mem_cons_of_mem _ hOther⟩

theorem forall_get? (h : ∀ e ∈ b, P e.2) {id : String} : ∀ a ∈ b.get? id, P a := by
  intro a ha
  obtain ⟨key, hMem⟩ := get?_mem ha
  exact h _ hMem

theorem forall_mem_erase (h : ∀ e ∈ b, P e.2) (id : String) : ∀ e ∈ b.erase id, P e.2 :=
  fun e he => h e (List.mem_filter.mp he).1

/-- Whatever holds of all that names are bound to still holds when one more name is bound to
something of which it holds. -/
theorem forall_mem_insert (h : ∀ e ∈ b, P e.2) (id : String) {a : α} (ha : P a) :
    ∀ e ∈ b.insert id a, P e.2 :=
  List.forall_mem_cons.mpr ⟨ha, forall_mem_erase h id⟩

end Bindings

namespace World.Within

variable {w : World}

/-- If everything is known there is nothing else in a world. -/
theorem of_any (hKnown : ∀ r, known r) (w : World) : w.Within known where
  machines m _ :=
    { states := fun s _ =>
        ⟨s.name.within_any hKnown, fun rule _ => Contents.rule.within_any hKnown rule⟩
      history := fun visit _ => Contents.visit.within_any hKnown visit
      notes := Contents.entries.within_any hKnown m.notes
      done := Contents.predicate.within_any hKnown m.done }
  bound e _ := hKnown (.machine e.2)
  held e _ := hKnown (.state e.2)
  steppers e _ := Contents.stepper.within_any hKnown e.2
  streams _ v _ := v.within_any hKnown

variable (h : w.Within known)
include h

theorem emit (event : Event) : (w.emit event).Within known := { h with }

theorem machine (m : MachineRef) : (w.machine m).Within known := by
  rw [World.machine]
  cases hMachine : w.machines[m]? with
  | none => exact ⟨List.forall_mem_nil _, List.forall_mem_nil _, List.forall_mem_nil _, trivial⟩
  | some built => exact h.machines built (List.mem_of_getElem? hMachine)

theorem state (s : StateRef) : (w.state s).Within known := (h.machine s.machine).state s.index

theorem modifyMachine (m : MachineRef) {f : Machine → Machine}
    (hf : ∀ machine : Machine, machine.Within known → (f machine).Within known) :
    (w.modifyMachine m f).Within known :=
  { h with machines := forall_mem_modify h.machines hf }

theorem commit (s : StateRef) : (w.commit s).Within known := by
  unfold World.commit
  split
  · exact (h.modifyMachine s.machine fun _ hm => hm.enter s.index).emit _
  · exact h

theorem assign (s : StateRef) (slot : Slot) {v : Value} (hv : v.Within known) :
    (w.update (w.assign s slot v)).2.Within known := by
  rcases w.update_assign s slot v with hSame | hPut
  · rwa [hSame]
  · rw [hPut]
    exact h.modifyMachine s.machine fun _ hm => hm.setSlot s.index slot hv

/-- Bookkeeping keeps nothing but what it is given. -/
theorem keep {b : Bookkeeping} (hb : b.Within known) : (b.apply w).Within known := by
  cases b with
  | bind id m =>
    exact { h with
      bound := Bindings.forall_mem_insert (P := fun m => known (.machine m)) h.bound id hb }
  | unbind id =>
    exact
      { h with bound := Bindings.forall_mem_erase (P := fun m => known (.machine m)) h.bound id }
  | hold id s =>
    exact
      { h with held := Bindings.forall_mem_insert (P := fun s => known (.state s)) h.held id hb }
  | openStepper id m inputs =>
    have hNew : Stepper.Within known { machine := m, inputs, phase := .fresh } := ⟨hb.1, hb.2⟩
    exact { h with steppers := Bindings.forall_mem_insert h.steppers id hNew }
  -- a new phase leaves the machine and the inputs of a stepper as they are
  | setPhase id phase =>
    rw [Bookkeeping.apply]
    cases hStepper : w.steppers.get? id with
    | none => exact h
    | some s =>
      have hs : s.Within known := Bindings.forall_get? h.steppers s hStepper
      have hNew : Stepper.Within known { s with phase } := ⟨hs.machine, hs.inputs⟩
      exact { h with steppers := Bindings.forall_mem_insert h.steppers id hNew }
  | activate m | release => exact { h with }
  | switching m source target | noTransition m source | performed label outcome => exact h.emit _

end World.Within

-- ---------------------------------------------------------------------------
-- Answers
-- ---------------------------------------------------------------------------

section

variable (hHome : ∀ s : StateRef, known (.state s) ↔ known (.machine s.machine))
include hHome

/-- The current state of a known machine is one of its own, so it is known as well. -/
theorem World.Within.current? {w : World} {m : MachineRef} (hm : known (.machine m)) :
    ∀ s ∈ w.current? m, known (.state s) := by
  intro s hs
  obtain ⟨index, -, rfl⟩ := Option.map_eq_some_iff.mp hs
  exact (hHome _).mpr hm

/-- Who asks about what is known is told of nothing else. -/
theorem Query.answer_within {w : World} (h : w.Within known) {β : Type} {q : Query β}
    (hq : q.Within known) {a : β} (ha : q.answer w = .ok a) : q.contents.Within known a := by
  have hPlaces {m : MachineRef} (hm : known (.machine m)) (place : Option Nat) :
      ∀ s ∈ place.map fun index => ({ machine := m, index } : StateRef), known (.state s) := by
    intro s hs
    obtain ⟨index, -, rfl⟩ := Option.map_eq_some_iff.mp hs
    exact (hHome _).mpr hm
  -- an answer is a part of a known machine, or one of the bindings, or a state of a machine that is
  -- known
  cases q with
  | write x | alive m | actions s slot | strict m | visitCount s => trivial
  | bound id =>
    obtain rfl := Except.ok.inj ha
    exact Bindings.forall_get? (P := fun m => known (.machine m)) h.bound
  | held id =>
    obtain rfl := Except.ok.inj ha
    exact Bindings.forall_get? (P := fun s => known (.state s)) h.held
  | stepper id =>
    obtain rfl := Except.ok.inj ha
    exact Bindings.forall_get? h.steppers
  | states m =>
    obtain rfl := Except.ok.inj ha
    intro s hs
    obtain ⟨index, -, rfl⟩ := List.mem_map.mp hs
    exact (hHome _).mpr hq
  | resolve m v =>
    obtain rfl := Except.ok.inj ha
    exact hPlaces hq.1 _
  | current m =>
    obtain rfl := Except.ok.inj ha
    exact World.Within.current? hHome hq
  | previous m =>
    obtain rfl := Except.ok.inj ha
    exact hPlaces hq _
  | name s =>
    obtain rfl := Except.ok.inj ha
    exact (h.state s).name
  | rules s =>
    obtain rfl := Except.ok.inj ha
    exact (h.state s).rules
  | table m =>
    obtain rfl := Except.ok.inj ha
    exact (h.machine m).table
  | history m =>
    obtain rfl := Except.ok.inj ha
    exact (h.machine m).history
  | notes m =>
    obtain rfl := Except.ok.inj ha
    exact (h.machine m).notes
  | done m =>
    obtain rfl := Except.ok.inj ha
    exact (h.machine m).done
  | latest s slot =>
    simp only [Query.answer, World.latest] at ha
    split at ha
    · obtain rfl := Except.ok.inj ha
      exact Value.within_null
    · obtain rfl := World.whileAlive_eq_ok ha
      exact (h.machine s.machine).latest s.index slot
  | slots s slot =>
    obtain rfl := World.whileAlive_eq_ok ha
    exact (h.machine s.machine).slots s.index slot

/-- Building a machine out of what is known gives a machine of which all is known, if it is known
itself. -/
theorem World.Within.construct {w : World} (h : w.Within known) {table : Value}
    (hTable : table.Within known)
    (hNew : w.machines.length < (w.construct table).2.machines.length →
      known (.machine w.machines.length)) :
    (w.construct table).2.Within known ∧
      ∀ m, (w.construct table).1 = .ok m → known (.machine m) := by
  have hStreams := h.streams.of_takes (readTable_takes w.machines.length table)
  rcases hRead : (readTable w.machines.length table).result w.streams with ⟨cause | m, s⟩
  · rw [hRead] at hStreams
    simp only [World.construct, hRead]
    exact ⟨{ h with streams := hStreams }, fun _ hm => by cases hm⟩
  · rw [hRead] at hStreams
    simp only [World.construct, hRead] at hNew ⊢
    -- only now is it known that a machine is built, and so that its reference is known
    have hSelf : known (.machine w.machines.length) := hNew (by simp [World.record, World.emit])
    have hStates (i : Nat) : known (.state { machine := w.machines.length, index := i }) :=
      (hHome _).mpr hSelf
    have hBuilt := (readTable_drains hStates hTable w.streams h.streams).2
    rw [hRead] at hBuilt
    have hFresh : m.Within known := hBuilt m rfl
    refine ⟨?_, fun ref hRef => ?_⟩
    · have hWith : ({ w with streams := s, machines := w.machines ++ [m] } : World).Within known :=
        { h with
          streams := hStreams
          machines :=
            List.forall_mem_append.mpr ⟨h.machines, List.forall_mem_singleton.mpr hFresh⟩ }
      exact hWith.emit _
    · obtain rfl := Except.ok.inj hRef
      exact hSelf

/-- **Primitive operations make nothing up.** What they answer and what they leave mentions what was
known, as long as a machine that they build is known as well. -/
theorem Primitive.effect_within {w : World} (h : w.Within known) {β : Type} {p : Primitive β}
    (hp : p.Within known)
    (hNew : w.machines.length < (p.effect w).2.machines.length →
      known (.machine w.machines.length)) :
    (p.effect w).2.Within known ∧ ∀ a, (p.effect w).1 = .ok a → p.contents.Within known a := by
  cases p with
  | fail cause => exact ⟨h, fun _ ha => by cases ha⟩
  | look q => exact ⟨h, fun a ha => Query.answer_within hHome h hp ha⟩
  | commit s => exact ⟨h.commit s, fun _ _ => trivial⟩
  | reset m => exact ⟨(h.modifyMachine m fun _ hm => hm.reset).emit _, fun _ _ => trivial⟩
  | assign s slot v => exact ⟨h.assign s slot hp.2, fun _ _ => trivial⟩
  | assignCurrent m slot v =>
    refine ⟨?_, fun _ _ => trivial⟩
    simp only [effect, World.assignCurrent]
    cases w.current? m with
    | some s => exact h.assign s slot hp.2
    | none => exact h
  | adjust m a => exact ⟨h.modifyMachine m fun _ hm => hm.adjust hp.2, fun _ _ => trivial⟩
  | construct table => exact World.Within.construct hHome h hp hNew
  | keep b => exact ⟨h.keep hp, fun _ _ => trivial⟩
  | read r => exact ⟨{ h with streams := (hp w.streams h.streams).1 }, fun _ _ => trivial⟩
  -- a NaN that was just made, and likewise a stream, mentions nothing
  | nan =>
    refine ⟨{ h with }, fun a ha => ?_⟩
    obtain rfl := Except.ok.inj ha
    exact fun _ hr => absurd hr List.not_mem_nil
  | stream items =>
    refine ⟨{ h with streams := h.streams.add hp }, fun a ha => ?_⟩
    obtain rfl := Except.ok.inj ha
    exact fun _ hr => absurd hr List.not_mem_nil

end

end RuleMachine
