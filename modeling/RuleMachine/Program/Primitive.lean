import RuleMachine.Definition.Table
import RuleMachine.Program.Writing
import RuleMachine.World.Slots

/-!
# Primitive operations

What a program does to a world it does by primitive operations, each of which is done at one
go: it answers or fails, and no function is called in between. There are few kinds of them.

* A `Query` looks at the world and changes nothing.
* Committing to a state, resetting a machine and assigning to a slot move a machine.
* An `Adjustment` sets an option of a machine or one of its notes.
* Building a machine adds one to the world.
* `Bookkeeping` is about names, steppers and the log, and touches no machine.

`Primitive.effect` says what each of them does.
-/

namespace RuleMachine

/-! ## Looking -/

/-- What can be asked about a world. -/
inductive Query : Type → Type where
  -- names and texts
  | write (x : Writing) : Query String
  | alive (m : MachineRef) : Query Bool
  | bound (id : String) : Query (Option MachineRef)
  | held (id : String) : Query (Option StateRef)
  | stepper (id : String) : Query (Option Stepper)
  -- the table of a machine
  | states (m : MachineRef) : Query (List StateRef)
  | resolve (m : MachineRef) (v : Value) : Query (Option StateRef)
  | name (s : StateRef) : Query Value
  | actions (s : StateRef) (slot : ActionSlot) : Query (List FunctionName)
  | rules (s : StateRef) : Query (List Rule)
  | table (m : MachineRef) : Query (List Machine.Row)
  -- where a machine stands
  | current (m : MachineRef) : Query (Option StateRef)
  | previous (m : MachineRef) : Query (Option StateRef)
  | history (m : MachineRef) : Query (List Visit)
  | notes (m : MachineRef) : Query Entries
  | done (m : MachineRef) : Query Predicate
  | strict (m : MachineRef) : Query Bool
  -- the visits to a state
  | visitCount (s : StateRef) : Query Nat
  | latest (s : StateRef) (slot : Slot) : Query Value
  | slots (s : StateRef) (slot : Slot) : Query (List Value)

def Query.answer {β : Type} (q : Query β) (w : World) : Except Cause β :=
  match q with
  | .write x => .ok (x.text w.refText)
  | .alive m => .ok (w.alive m)
  | .bound id => .ok (w.bound.get? id)
  | .held id => .ok (w.held.get? id)
  | .stepper id => .ok (w.steppers.get? id)
  | .states m =>
    .ok ((List.range (w.machine m).states.length).map fun index => { machine := m, index })
  | .resolve m v =>
    .ok (((w.machine m).resolve? m v).map fun index => { machine := m, index })
  | .name s => .ok (w.state s).name
  | .actions s slot => .ok ((w.state s).actions slot)
  | .rules s => .ok (w.state s).rules
  | .table m => .ok (w.machine m).table
  | .current m => .ok (w.current? m)
  | .previous m => .ok ((w.machine m).previous?.map fun index => { machine := m, index })
  | .history m => .ok (w.machine m).history
  | .notes m => .ok (w.machine m).notes
  | .done m => .ok (w.machine m).done
  | .strict m => .ok (w.machine m).strict
  | .visitCount s => .ok (w.state s).visits.length
  | .latest s slot => w.latest s slot
  | .slots s slot => w.slots s slot

/-! ## Adjusting -/

/-- What can be set on a machine at any time. -/
inductive Adjustment where
  | strict (b : Bool)
  | done (p : Predicate)
  | note (key v : Value)
  | eraseNote (key : Value)

def Adjustment.apply (a : Adjustment) (m : Machine) : Machine :=
  match a with
  | .strict b => { m with strict := b }
  | .done p => { m with done := p }
  | .note key v => { m with notes := m.notes.insert key v }
  | .eraseNote key => { m with notes := m.notes.erase key }

/-! ## Keeping books -/

/-- Changes of a world that touch no machine. -/
inductive Bookkeeping where
  -- names
  | bind (id : String) (m : MachineRef)
  | unbind (id : String)
  | hold (id : String) (s : StateRef)
  -- steppers
  | openStepper (id : String) (m : MachineRef) (inputs : List Value)
  | setPhase (id : String) (phase : Stepper.Phase)
  -- machines in use
  | activate (m : MachineRef)
  | release
  -- the log
  | switching (m : MachineRef) (source target : Value)
  | noTransition (m : MachineRef) (source : Value)
  | performed (label : String) (outcome : Except Fault Reply)

def Bookkeeping.apply (b : Bookkeeping) (w : World) : World :=
  match b with
  | .bind id m => { w with bound := w.bound.insert id m }
  | .unbind id => { w with bound := w.bound.erase id }
  | .hold id s => { w with held := w.held.insert id s }
  | .openStepper id m inputs =>
    { w with
      steppers := w.steppers.insert id { machine := m, inputs, phase := .fresh }
      pinned := m :: w.pinned }
  | .setPhase id phase =>
    match w.steppers.get? id with
    | some s => { w with steppers := w.steppers.insert id { s with phase } }
    | none => w
  | .activate m => { w with active := m :: w.active }
  | .release => { w with active := w.active.tail }
  | .switching m source target => w.record m (.switching (w.plain source) (w.plain target))
  | .noTransition m source => w.record m (.noTransition (w.plain source))
  | .performed label outcome => w.emit (.performed label outcome)

/-! ## Building -/

/-- Builds a machine from a table. Streams in the table are used up either way. -/
def World.construct (w : World) (table : Value) : Except Cause MachineRef × World :=
  let self := w.machines.length
  match (readTable self table).result w.streams with
  | (.ok m, streams) =>
    (.ok self,
      ({ w with streams, machines := w.machines ++ [m] }).record self
        (.built m.states.length m.ruleCount))
  | (.error cause, streams) => (.error cause, { w with streams })

/-! ## All primitive operations -/

/-- The primitive operations, by the type of their answers. -/
inductive Primitive : Type → Type 1 where
  | fail {β : Type} (cause : Cause) : Primitive β
  | look {β : Type} (q : Query β) : Primitive β
  | commit (s : StateRef) : Primitive Unit
  | reset (m : MachineRef) : Primitive Unit
  | assign (s : StateRef) (slot : Slot) (v : Value) : Primitive Unit
  | assignCurrent (m : MachineRef) (slot : Slot) (v : Value) : Primitive Unit
  | adjust (m : MachineRef) (a : Adjustment) : Primitive Unit
  | construct (table : Value) : Primitive MachineRef
  | keep (b : Bookkeeping) : Primitive Unit
  | read {β : Type} (r : Reading Cause β) : Primitive β
  | nan : Primitive Value
  | stream (items : List Value) : Primitive Value

/-- A change of the world that may be refused. Refusing leaves the world as it is. -/
def World.update (w : World) (r : Except Cause World) : Except Cause Unit × World :=
  match r with
  | .ok w' => (.ok (), w')
  | .error cause => (.error cause, w)

/-- What a primitive operation answers, and the world after it. -/
def Primitive.effect {β : Type} (p : Primitive β) (w : World) : Except Cause β × World :=
  match p with
  | .fail cause => (.error cause, w)
  | .look q => (q.answer w, w)
  | .commit s => (.ok (), w.commit s)
  | .reset m => (.ok (), w.reset m)
  | .assign s slot v => w.update (w.assign s slot v)
  | .assignCurrent m slot v => w.update (w.assignCurrent m slot v)
  | .adjust m a => (.ok (), w.modifyMachine m a.apply)
  | .construct table => w.construct table
  | .keep b => (.ok (), b.apply w)
  | .read r => ((r.result w.streams).1, { w with streams := (r.result w.streams).2 })
  | .nan => (.ok (.nan w.nans), { w with nans := w.nans + 1 })
  | .stream items =>
    (.ok (w.streams.add items).1, { w with streams := (w.streams.add items).2 })

end RuleMachine
