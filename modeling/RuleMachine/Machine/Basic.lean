import RuleMachine.Definition.Rule

/-!
# Machines

A machine has an ordered table of states, at most one of which is current, and a history: one
`Visit` for each time a state was entered, with a slot for a result and one for a message.
Each state keeps the positions of its own visits, so that it can reach its slots.

Everything here is a function on one machine. The changes are `Machine.enter`, which commits
to a state, `Machine.reset`, `Machine.setSlot`, and assignments to the notes and the options;
none of them touches the table. The actions that surround a change are run elsewhere.

Each change has small lemmas for what it does to the stack, the current state and the table:
`stack_enter` says that entering appends one name, `stack_reset` that nothing is left after a
reset, and `stack_setSlot` that slots are no part of the stack. No change alters `declared`, the
table without the positions of visits, and names, rules and actions are read off that.
-/

namespace RuleMachine

/-! ## Visits -/

/-- The slots of a visit. -/
inductive Slot where
  | result
  | message
deriving DecidableEq, Repr

def Slot.name : Slot → String
  | result => "result"
  | message => "message"

/-- One entry of a history: the state that was entered, by name, and its slots. -/
structure Visit where
  name : Value
  result : Value
  message : Value
deriving Inhabited

namespace Visit

def begin (name : Value) : Visit := { name, result := .null, message := .null }

def get (visit : Visit) : Slot → Value
  | .result => visit.result
  | .message => visit.message

def put (visit : Visit) (slot : Slot) (v : Value) : Visit :=
  match slot with
  | .result => { visit with result := v }
  | .message => { visit with message := v }

end Visit

/-! ## States and machines -/

/-- A state of a table. `visits` holds the positions in the history at which the state was entered,
oldest first. -/
structure State where
  name : Value
  onEnter : List FunctionName
  body : List FunctionName
  onExit : List FunctionName
  rules : List Rule
  visits : List Nat
deriving Inhabited

def State.actions (s : State) : ActionSlot → List FunctionName
  | .onEnter => s.onEnter
  | .body => s.body
  | .onExit => s.onExit

/-- A state as it was declared. -/
def State.unvisited (s : State) : State := { s with visits := [] }

/-- A machine. `current` is the place of the current state in the table. -/
structure Machine where
  states : List State
  current : Option Nat
  history : List Visit
  notes : Entries
  done : Predicate
  strict : Bool
deriving Inhabited

namespace Machine

/-- A machine with a given table that has not been started. It is not done, and not strict. -/
def ofStates (states : List State) : Machine :=
  { states
    current := none
    history := []
    notes := []
    done := .constant (.bool false)
    strict := false }

/-! ## Reading -/

def state (m : Machine) (index : Nat) : State := m.states[index]?.getD default

def nameOf (m : Machine) (index : Nat) : Value := (m.state index).name

/-- The place of the state that was declared under a name. Every hashable value may be a name. -/
def find? (m : Machine) (name : Value) : Option Nat :=
  if name.hashable then m.states.findIdx? fun s => s.name.eqv name else none

/-- The place of the state that a value refers to, either as a state of this machine, whose
reference is `self`, or by name. A state of another machine is no name, and a place beyond the table
is no state. -/
def resolve? (m : Machine) (self : MachineRef) (v : Value) : Option Nat :=
  match v with
  | .state ref =>
    if ref.machine = self ∧ ref.index < m.states.length then some ref.index else none
  | v => m.find? v

def stack (m : Machine) : List Value := m.history.map Visit.name

def currentName? (m : Machine) : Option Value := m.current.map m.nameOf

def previous? (m : Machine) : Option Nat :=
  match m.history.reverse with
  | _ :: visit :: _ => m.find? visit.name
  | _ => none

def visitsTo (m : Machine) (index : Nat) : List Visit :=
  (m.state index).visits.filterMap fun position => m.history[position]?

/-- What a slot of the latest visit to a state holds; null if there was no visit. -/
def latest (m : Machine) (index : Nat) (slot : Slot) : Value :=
  match (m.visitsTo index).getLast? with
  | some visit => visit.get slot
  | none => .null

/-- What a slot held in each visit to a state, oldest first. -/
def slots (m : Machine) (index : Nat) (slot : Slot) : List Value :=
  (m.visitsTo index).map fun visit => visit.get slot

def ruleCount (m : Machine) : Nat := (m.states.flatMap State.rules).length

/-! ## Changing -/

/-- Commits to a state: begins a visit, notes its position and makes the state current. A place
beyond the table cannot be entered. -/
def enter (m : Machine) (index : Nat) : Machine :=
  if index < m.states.length then
    { m with
      history := m.history ++ [Visit.begin (m.nameOf index)]
      states := m.states.modify index fun s => { s with visits := s.visits ++ [m.history.length] }
      current := some index }
  else m

/-- Forgets the current state, the history and the notes; keeps the table and the options. -/
def reset (m : Machine) : Machine :=
  { m with
    current := none
    history := []
    states := m.states.map fun s => { s with visits := [] }
    notes := [] }

/-- Puts a value into a slot of the latest visit to a state. A state without visits has no slot, and
nothing changes. -/
def setSlot (m : Machine) (index : Nat) (slot : Slot) (v : Value) : Machine :=
  match (m.state index).visits.getLast? with
  | some position => { m with history := m.history.modify position fun visit => visit.put slot v }
  | none => m

/-! ## What the changes do -/

/-- Entering a state of the table, spelled out. -/
theorem enter_of_lt {m : Machine} {index : Nat} (h : index < m.states.length) :
    m.enter index =
      { m with
        history := m.history ++ [Visit.begin (m.nameOf index)]
        states := m.states.modify index fun s => { s with visits := s.visits ++ [m.history.length] }
        current := some index } := by
  simp [enter, h]

theorem stack_enter {m : Machine} {index : Nat} (h : index < m.states.length) :
    (m.enter index).stack = m.stack ++ [m.nameOf index] := by
  simp [stack, enter_of_lt h, Visit.begin]

theorem current_enter {m : Machine} {index : Nat} (h : index < m.states.length) :
    (m.enter index).current = some index := by
  simp [enter_of_lt h]

theorem stack_reset (m : Machine) : m.reset.stack = [] := rfl

theorem stack_setSlot (m : Machine) (index : Nat) (slot : Slot) (v : Value) :
    (m.setSlot index slot v).stack = m.stack := by
  unfold setSlot
  split
  · simp only [stack]
    apply List.ext_getElem?
    intro i
    simp only [List.getElem?_map, List.getElem?_modify]
    cases m.history[i]? with
    | none => rfl
    | some visit => cases slot <;> (split <;> rfl)
  · rfl

theorem states_setSlot (m : Machine) (index : Nat) (slot : Slot) (v : Value) :
    (m.setSlot index slot v).states = m.states := by
  unfold setSlot
  split <;> rfl

/-! ## The static table -/

/-- The states as they were declared. -/
def declared (m : Machine) : List State := m.states.map State.unvisited

theorem length_declared (m : Machine) : m.declared.length = m.states.length := by
  simp [declared]

theorem unvisited_state (m : Machine) (index : Nat) :
    (m.state index).unvisited = m.declared[index]?.getD default := by
  simp only [state, declared, List.getElem?_map]
  cases m.states[index]? <;> rfl

@[simp] theorem declared_enter (m : Machine) (index : Nat) :
    (m.enter index).declared = m.declared := by
  unfold enter
  split
  · apply List.ext_getElem?
    intro i
    simp only [declared, List.getElem?_map, List.getElem?_modify]
    cases m.states[i]? with
    | none => rfl
    | some s => by_cases h : index = i <;> simp [h, State.unvisited]
  · rfl

@[simp] theorem declared_reset (m : Machine) : m.reset.declared = m.declared := by
  simp [declared, reset, State.unvisited, Function.comp_def]

@[simp] theorem declared_setSlot (m : Machine) (index : Nat) (slot : Slot) (v : Value) :
    (m.setSlot index slot v).declared = m.declared := by
  rw [declared, states_setSlot, declared]

section SameTable

variable {m m' : Machine} (h : m'.declared = m.declared)
include h

theorem length_of_declared : m'.states.length = m.states.length := by
  rw [← length_declared, h, length_declared]

theorem unvisited_of_declared (index : Nat) :
    (m'.state index).unvisited = (m.state index).unvisited := by
  rw [unvisited_state, h, unvisited_state]

theorem nameOf_of_declared (index : Nat) : m'.nameOf index = m.nameOf index := by
  show (m'.state index).unvisited.name = (m.state index).unvisited.name
  rw [unvisited_of_declared h]

theorem rules_of_declared (index : Nat) : (m'.state index).rules = (m.state index).rules := by
  show (m'.state index).unvisited.rules = (m.state index).unvisited.rules
  rw [unvisited_of_declared h]

theorem actions_of_declared (index : Nat) (slot : ActionSlot) :
    (m'.state index).actions slot = (m.state index).actions slot := by
  have hSame (s : State) : s.unvisited.actions slot = s.actions slot := by cases slot <;> rfl
  rw [← hSame, unvisited_of_declared h, hSame]

end SameTable

/-- A state in a snapshot of the table: its name, and the name of the target and the label of each
of its rules. -/
structure Row where
  name : Value
  rules : List (Value × Option String)

/-- A snapshot of the table, without anything that changes as the machine runs. -/
def table (m : Machine) : List Row :=
  m.states.map fun s =>
    { name := s.name
      rules := s.rules.map fun rule => (m.nameOf rule.target.index, rule.label) }

end Machine

/-! ## Snapshots as values -/

def Machine.Row.toValue (row : Machine.Row) : Value :=
  let rule (target : Value) (label : Option String) : Value :=
    .record [("target", target), ("label", (label.map Value.text).getD .null)]
  let rules := row.rules.map fun (target, label) => rule target label
  .record [("name", row.name), ("rules", .list rules)]

def Visit.slots (visit : Visit) : Value :=
  .record [(Slot.name .result, visit.result), (Slot.name .message, visit.message)]

/-- A visit as a value: the name beside the map of its slots. -/
def Visit.toValue (visit : Visit) : Value := .tuple [visit.name, visit.slots]

end RuleMachine
