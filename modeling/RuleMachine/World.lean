import RuleMachine.Machine.Stepper

/-!
# The world of a session

A session builds machines, binds them to names, keeps states and steppers under names, and
logs what happens. `World` is all of that at one moment.

A machine lives as long as it is bound to a name, a stepper was ever made for it, or it is in
use by an operation that has not ended. A session that forgets a machine gives it up for good:
values that mention it do not keep it, be they names of states, slots or notes of other machines.
This is a limit of the model, as there is no garbage collection in it. A state outlives its machine,
with its name, its rules and the count of its visits, but it can no longer reach its slots.
-/

namespace RuleMachine

/-! ## Bindings -/

/-- Things bound to names. The latest binding of a name comes first and is the only one. -/
abbrev Bindings (α : Type) := List (String × α)

namespace Bindings

def get? {α : Type} (b : Bindings α) (id : String) : Option α := b.lookup id

def erase {α : Type} (b : Bindings α) (id : String) : Bindings α := b.filter fun (k, _) => k != id

def insert {α : Type} (b : Bindings α) (id : String) (a : α) : Bindings α := (id, a) :: b.erase id

theorem get?_insert_self {α : Type} (b : Bindings α) (id : String) (a : α) :
    (b.insert id a).get? id = some a := by
  simp [get?, insert]

theorem get?_insert_ne {α : Type} (b : Bindings α) {id other : String} (a : α)
    (h : other ≠ id) : (b.insert id a).get? other = b.get? other := by
  have hFind (entries : Bindings α) : (entries.erase id).lookup other = entries.lookup other := by
    induction entries with
    | nil => rfl
    | cons entry rest ih =>
      obtain ⟨key, value⟩ := entry
      by_cases hKey : key = id
      · subst hKey
        rw [erase, List.filter_cons_of_neg (by simp), ← erase, ih, List.lookup_cons,
          beq_false_of_ne h]
      · rw [erase, List.filter_cons_of_pos (by simpa using hKey), List.lookup_cons, ← erase, ih,
          List.lookup_cons]
  rw [get?, insert, List.lookup_cons, beq_false_of_ne h]
  exact hFind b

/-- Binding a name alike leaves bindings that agree on some names in agreement. -/
theorem get?_insert_of_agree {α : Type} {b b' : Bindings α} {P : String → Prop}
    (h : ∀ key, P key → b'.get? key = b.get? key) (id : String) (a : α) :
    ∀ key, P key → (b'.insert id a).get? key = (b.insert id a).get? key := by
  intro key hKey
  by_cases hSame : key = id
  · rw [hSame, get?_insert_self, get?_insert_self]
  · rw [get?_insert_ne b' a hSame, get?_insert_ne b a hSame, h key hKey]

end Bindings

/-! ## The log -/

/-- What an operation answers: a value, the rules of a state, or a rule with the outcomes of
checking it on several inputs. -/
inductive Reply where
  | value (v : Value)
  | rules (rules : List Rule)
  | checkedRule (rule : Rule) (outcomes : List Value)
deriving Inhabited

/-- What a machine logs of itself. States are mentioned by the plain text of their names. -/
inductive Record where
  | built (states rules : Nat)
  | entered (state : String) (visit : Nat)
  | switching (source target : String)
  | noTransition (state : String)
  | reset
deriving DecidableEq, Repr

def Record.text : Record → String
  | built states rules =>
    "Built machine with " ++ toString states ++ " states and " ++ toString rules ++ " rules"
  | entered state visit =>
    "Entered state " ++ inQuotes state ++ " (visit " ++ toString visit ++ ")"
  | switching source target => "Switching from " ++ inQuotes source ++ " to " ++ inQuotes target
  | noTransition state => "No transition from state " ++ inQuotes state
  | reset => "Machine reset"

/-- Something that happened: a record of a machine, a call of a function, or the end of an
operation in the body of a function, which is logged under a label. -/
inductive Event where
  | record (machine : MachineRef) (record : Record)
  | called (function : FunctionName) (args : List Value)
  | performed (label : String) (outcome : Except Fault Reply)

/-- An event, with the names that machines were bound to when it happened. -/
structure LogEntry where
  event : Event
  machines : Bindings MachineRef

/-! ## The world -/

/-- Everything that a session has made so far. -/
structure World where
  machines : List Machine
  bound : Bindings MachineRef
  /-- Machines that a stepper was made for. -/
  pinned : List MachineRef
  /-- Machines in use by operations that have not ended, the innermost first. -/
  active : List MachineRef
  held : Bindings StateRef
  steppers : Bindings Stepper
  streams : Streams
  /-- How many NaNs were made. -/
  nans : Nat
  log : Array LogEntry
deriving Inhabited

namespace World

def empty : World :=
  { machines := [], bound := [], pinned := [], active := [], held := [], steppers := []
    streams := { left := [] }, nans := 0, log := #[] }

def machine (w : World) (ref : MachineRef) : Machine := w.machines[ref]?.getD default

def state (w : World) (ref : StateRef) : State := (w.machine ref.machine).state ref.index

/-- Changes one machine and no other. -/
def modifyMachine (w : World) (ref : MachineRef) (f : Machine → Machine) : World :=
  { w with machines := w.machines.modify ref f }

/-- Where no machine was built, there is one without states. -/
theorem machine_of_le {w : World} {ref : MachineRef} (h : w.machines.length ≤ ref) :
    w.machine ref = default := by
  rw [machine, List.getElem?_eq_none h]
  rfl

theorem machine_modifyMachine_self {w : World} {ref : MachineRef} (f : Machine → Machine)
    (h : ref < w.machines.length) : (w.modifyMachine ref f).machine ref = f (w.machine ref) := by
  simp [machine, modifyMachine, List.getElem?_eq_getElem h]

theorem machine_modifyMachine_ne (w : World) {ref other : MachineRef} (f : Machine → Machine)
    (h : ref ≠ other) : (w.modifyMachine ref f).machine other = w.machine other := by
  simp [machine, modifyMachine, h]

/-- What a change of one machine does to the machine at a reference. -/
theorem machine_modifyMachine (w : World) (ref other : MachineRef) (f : Machine → Machine) :
    (w.modifyMachine ref f).machine other =
      if ref = other ∧ ref < w.machines.length then f (w.machine ref) else w.machine other := by
  by_cases h : ref = other
  · subst h
    by_cases hLt : ref < w.machines.length
    · rw [machine_modifyMachine_self f hLt, if_pos ⟨rfl, hLt⟩]
    · rw [if_neg fun h => hLt h.2]
      have hBeyond : w.machines.length ≤ ref := Nat.not_lt.mp hLt
      rw [machine_of_le hBeyond, machine_of_le (by simpa [modifyMachine] using hBeyond)]
  · rw [machine_modifyMachine_ne w f h, if_neg fun h' => h h'.1]

/-- Whether a machine still lives: a name, a stepper or an operation under way keeps it, and values
do not. -/
def alive (w : World) (ref : MachineRef) : Bool :=
  w.bound.any (fun (_, m) => m == ref) || w.pinned.contains ref || w.active.contains ref

def emit (w : World) (event : Event) : World :=
  { w with log := w.log.push { event, machines := w.bound } }

@[simp] theorem machine_emit (w : World) (event : Event) (ref : MachineRef) :
    (w.emit event).machine ref = w.machine ref := rfl

/-! ## The text of references -/

/-- The text of a machine, given how references inside its current state's name are written. -/
def machineText (w : World) (refs : RefText) (ref : MachineRef) : String :=
  let m := w.machine ref
  "Machine(states=" ++ toString m.states.length ++ ", current=" ++
    (m.currentName?.getD .null).literal refs ++ ")"

/-- The text of a state, given how references inside its name are written. -/
def stateText (w : World) (refs : RefText) (ref : StateRef) : String :=
  "State(" ++ (w.state ref).name.literal refs ++ ")"

/-- The texts of references to the first machines built, as many as a number says. A name can
mention only machines that were built before its own, so in the text of a machine only these are
written out; what else there might be is written as what it is. -/
def refTextBelow (w : World) : Nat → RefText
  | 0 => { state := fun _ => "State", machine := fun _ => "Machine" }
  | n + 1 =>
    let before := w.refTextBelow n
    { state := fun s => if s.machine = n then w.stateText before s else before.state s
      machine := fun m => if m = n then w.machineText before m else before.machine m }

def refText (w : World) : RefText := w.refTextBelow w.machines.length

theorem refTextBelow_state (w : World) (n : Nat) (s : StateRef) :
    (w.refTextBelow n).state s =
      if s.machine < n then w.stateText (w.refTextBelow s.machine) s else "State" := by
  induction n with
  | zero => rfl
  | succ n ih =>
    show (if s.machine = n then w.stateText (w.refTextBelow n) s
      else (w.refTextBelow n).state s) = _
    rcases Nat.lt_trichotomy s.machine n with h | h | h
    · rw [if_neg (Nat.ne_of_lt h), ih, if_pos h, if_pos (Nat.lt_succ_of_lt h)]
    · rw [if_pos h, if_pos (Nat.lt_succ_of_le (Nat.le_of_eq h)), h]
    · rw [if_neg (Nat.ne_of_gt h), ih, if_neg (Nat.lt_asymm h), if_neg (Nat.not_lt.mpr h)]

theorem refTextBelow_machine (w : World) (n : Nat) (m : MachineRef) :
    (w.refTextBelow n).machine m =
      if m < n then w.machineText (w.refTextBelow m) m else "Machine" := by
  induction n with
  | zero => rfl
  | succ n ih =>
    show (if m = n then w.machineText (w.refTextBelow n) m else (w.refTextBelow n).machine m) = _
    rcases Nat.lt_trichotomy m n with h | h | h
    · rw [if_neg (Nat.ne_of_lt h), ih, if_pos h, if_pos (Nat.lt_succ_of_lt h)]
    · rw [if_pos h, if_pos (Nat.lt_succ_of_le (Nat.le_of_eq h)), h]
    · rw [if_neg (Nat.ne_of_gt h), ih, if_neg (Nat.lt_asymm h), if_neg (Nat.not_lt.mpr h)]

/-- References are written alike in worlds with the same names, the same number of states in each
machine, and the same current states. -/
theorem refTextBelow_congr {w w' : World} (hName : ∀ s, (w'.state s).name = (w.state s).name)
    (hStates : ∀ m, (w'.machine m).states.length = (w.machine m).states.length)
    (hCurrent : ∀ m, (w'.machine m).currentName? = (w.machine m).currentName?) (n : Nat) :
    w'.refTextBelow n = w.refTextBelow n := by
  induction n with
  | zero => rfl
  | succ n ih =>
    have hState (refs : RefText) (s : StateRef) : w'.stateText refs s = w.stateText refs s := by
      rw [stateText, stateText, hName]
    have hMachine (refs : RefText) (m : MachineRef) :
        w'.machineText refs m = w.machineText refs m := by
      unfold machineText
      simp only [hStates, hCurrent]
    simp only [refTextBelow, ih, hState, hMachine]

/-- References are written alike in worlds with the same machines. -/
theorem refText_of_machines {w w' : World} (h : w'.machines = w.machines) :
    w'.refText = w.refText := by
  have hMachine (ref : MachineRef) : w'.machine ref = w.machine ref := by rw [machine, h, machine]
  rw [refText, h, refText]
  refine refTextBelow_congr (fun s => ?_) (fun m => ?_) (fun m => ?_) _
  · rw [state, hMachine, state]
  · rw [hMachine]
  · rw [hMachine]

def plain (w : World) (v : Value) : String := v.plain w.refText

@[simp] theorem plain_emit (w : World) (event : Event) : (w.emit event).plain = w.plain := by
  have hText : (w.emit event).refText = w.refText := refText_of_machines rfl
  funext v
  rw [plain, plain, hText]

def fault (w : World) (cause : Cause) : Fault := { cause, message := cause.message w.refText }

/-! ## Changing machines -/

def record (w : World) (ref : MachineRef) (r : Record) : World := w.emit (.record ref r)

/-- Whether a reference is to a state of a table. -/
def declares (w : World) (s : StateRef) : Bool :=
  s.index < (w.machine s.machine).states.length

theorem declares_iff {w : World} {s : StateRef} :
    w.declares s = true ↔ s.index < (w.machine s.machine).states.length := by
  simp [declares]

/-- A machine that declares a state was built. -/
theorem lt_of_declares {w : World} {s : StateRef} (h : w.declares s) :
    s.machine < w.machines.length := by
  refine Nat.lt_of_not_le fun hBeyond => ?_
  rw [declares_iff, machine_of_le hBeyond] at h
  exact Nat.not_lt_zero _ h

/-- Commits to a state and logs that it did, all at once. What is no state of a table cannot be
committed to. -/
def commit (w : World) (s : StateRef) : World :=
  if w.declares s then
    let w' := w.modifyMachine s.machine fun m => m.enter s.index
    w'.record s.machine (.entered (w'.plain (w'.state s).name) (w'.state s).visits.length)
  else w

def reset (w : World) (ref : MachineRef) : World :=
  (w.modifyMachine ref Machine.reset).record ref .reset

end World

end RuleMachine
