import RuleMachine.Engine.Build
import RuleMachine.Engine.Loop
import RuleMachine.Script.Expr

/-!
# Commands

A command is one operation of a session: building or dropping a machine, reading a piece of a
definition, using a state, or using a machine. Most commands are about one machine, which an
`Instruction` names or leaves to the frame; the machine is looked up before the operands are
evaluated, and is kept alive until the command has ended.

`Run.perform` gives each command its meaning in terms of the engine.
-/

namespace RuleMachine

/-! ## The commands -/

/-- What can be read of a state. -/
inductive StateAttribute where
  | name
  | visits
  | latest (slot : Slot)
  | slots (slot : Slot)
  | machine
  | actions (slot : ActionSlot)
  | rules
deriving DecidableEq, Repr

/-- Options given by expressions. -/
structure OptionExprs where
  start : Option Expr
  done : Option Expr
  strict : Option Expr

/-- Commands that are about no machine. -/
inductive FreeCommand where
  /-- Evaluates an expression. -/
  | evaluate (v : Expr)
  /-- The literal of a value. -/
  | literal (v : Expr)
  /-- Fails on purpose. -/
  | fail (kind : RaisedKind) (message : String)
  /-- Reads options, and may then try to assign one, which cannot be done. -/
  | options (options : OptionExprs) (assignment : Option (String × Expr))
  /-- Reads an action list. -/
  | readActions (v : Expr) (place : String)
  /-- Reads an action list and runs it. -/
  | runActions (v : Expr) (args : List Expr)
  /-- Reads the rules of a state as pairs. -/
  | readRulePairs (source spec : Expr)
  /-- Reads a rule and checks it on several lists of arguments. -/
  | readRule (source target spec : Expr) (checks : List (List Expr))
  /-- The trace of a history. -/
  | trace (history : Expr)
  /-- Reads an attribute of a state. -/
  | inspect (s : Expr) (what : StateAttribute)
  /-- Assigns to a slot of a state. -/
  | assign (s : Expr) (slot : Slot) (v : Expr)
  /-- Runs the actions in a slot of a state. -/
  | runSlot (s : Expr) (slot : ActionSlot)
  /-- Takes the next step of a kept stepper. -/
  | advance (stepper : String)
  /-- Ends a kept stepper. -/
  | close (stepper : String)

/-- Commands that use a machine. -/
inductive MachineCommand where
  -- entering states
  | start
  | reset
  | setState (s : Expr)
  | trySwitch (inputs : List Expr)
  | switch (inputs : List Expr)
  | run (inputs : List Expr)
  | steps (inputs : List Expr) (limit : Nat)
  | openStepper (stepper : String) (inputs : List Expr)
  -- slots
  | assignCurrent (slot : Slot) (v : Expr)
  | latest (slot : Slot) (s : Option Expr)
  | slots (slot : Slot) (s : Expr)
  -- states and history
  | hold (name : String) (s : Expr)
  | states (names : List Expr)
  | currentState
  | previousState
  | stack
  | rawHistory
  | trace
  | table
  | digraph (style : Digraph.Style)
  | literal
  -- options and notes
  | strict
  | setStrict (v : Expr)
  | done
  | setDone (v : Expr)
  | notes
  | setNote (key v : Expr)
  | eraseNote (key : Expr)

/-- The commands. -/
inductive Command where
  /-- Builds a machine and binds it. -/
  | build (table : Expr) (options : Option OptionExprs)
  /-- Unbinds a machine. -/
  | drop
  | free (command : FreeCommand)
  | onMachine (command : MachineCommand)

/-- A command in a script.

* `label` is what its outcome is logged under.
* `machine` names the machine that the command is about.
* `guard` is a condition; if it does not hold, the command is passed over.
* `attempt` says that the script goes on if the command fails. -/
structure Instruction where
  label : String
  command : Command
  machine : Option String
  guard : Option Expr
  attempt : Bool

/-- The name that a command binds or unbinds a machine under. -/
def Instruction.boundName (i : Instruction) : String := i.machine.getD defaultMachine

namespace Run

/-! ## Operands -/

def evalOptional (f : Frame) (e : Option Expr) : Run (Option Value) := do
  match e with
  | some e => return some (← e.eval f)
  | none => return none

def evalOptions (f : Frame) (exprs : OptionExprs) : Run Options := do
  let start ← evalOptional f exprs.start
  let done ← evalOptional f exprs.done
  let strict ← evalOptional f exprs.strict
  match Options.ofValues start done strict with
  | .ok options => return options
  | .error cause => fail cause

def evalState (f : Frame) (e : Expr) : Run StateRef := do stateOf (← e.eval f)

/-! ## Answers -/

def noAnswer : Reply := .value .null

def stateAnswer (s : Option StateRef) : Reply := .value (optionalState s)

def statesAnswer (ss : List StateRef) : Reply := .value (.list (ss.map Value.state))

/-! ## Commands without a machine -/

/-- Checks a rule on several lists of arguments, each evaluated just before its check. -/
def checkAll (f : Frame) (rule : Rule) : List (List Expr) → Run (List Value)
  | [] => return []
  | args :: rest => do
    let outcome ← ask rule.predicate (← Expr.evalAll f args)
    let others ← checkAll f rule rest
    return outcome :: others

def historyPairs (history : Value) : Run (List (Value × Value)) :=
  reading (readPairs history .illTyped fun _ _ => .illTyped)

def inspect (s : StateRef) (what : StateAttribute) : Run Reply := do
  match what with
  | .name => return .value (← look (.name s))
  | .visits => return .value (.int (← look (.visitCount s)))
  | .latest slot => return .value (← look (.latest s slot))
  | .slots slot => return .value (.list (← look (.slots s slot)))
  | .machine => return .value (if ← look (.alive s.machine) then .machine s.machine else .null)
  | .actions slot =>
    let functions ← look (.actions s slot)
    return .value (.tuple (functions.map Value.function))
  | .rules => return .rules (← look (.rules s))

def performFree (f : Frame) (command : FreeCommand) : Run Reply := do
  match command with
  | .evaluate v => return .value (← v.eval f)
  | .literal v =>
    let v ← v.eval f
    return .value (.text (← look (.write (.literal v))))
  | .fail kind message => fail (.raised kind message)
  | .options exprs assignment =>
    let options ← evalOptions f exprs
    match assignment with
    | some (field, v) =>
      let _ ← v.eval f
      fail (.frozenOption field)
    | none => return .value (options.toValue (← look (.write (.options options))))
  | .readActions v place =>
    let v ← v.eval f
    let functions ← reading (readActionsAt (.named place) v)
    return .value (.tuple (functions.map Value.function))
  | .runActions v args =>
    let v ← v.eval f
    let functions ← reading (readActionsAt (.named "action list") v)
    runActions functions (← Expr.evalAll f args)
    return noAnswer
  | .readRulePairs source spec =>
    let source ← source.eval f
    let spec ← spec.eval f
    let pairs ← reading (RuleMachine.readRulePairs source spec)
    return .value (.list (pairs.map fun (target, rule) => .tuple [target, rule]))
  | .readRule source target spec checks =>
    let source ← source.eval f
    let target ← evalState f target
    let spec ← spec.eval f
    let targetName ← look (.name target)
    let rule ← reading (RuleMachine.readRule source targetName target spec)
    return .checkedRule rule (← checkAll f rule checks)
  | .trace history =>
    let pairs ← historyPairs (← history.eval f)
    return .value (.text (← look (.write (.trace pairs))))
  | .inspect s what => inspect (← evalState f s) what
  | .assign s slot v =>
    let s ← evalState f s
    act (.assign s slot (← v.eval f))
    return noAnswer
  | .runSlot s slot =>
    runSlot (← evalState f s) slot
    return noAnswer
  | .advance id =>
    match ← advance id with
    | some s => return .value (.state s)
    | none => return .value (.text "stop")
  | .close id =>
    close id
    return noAnswer

/-! ## Commands on a machine -/

def performOn (f : Frame) (m : MachineRef) (command : MachineCommand) : Run Reply := do
  match command with
  | .start => return stateAnswer (← start m)
  | .reset =>
    reset m
    return noAnswer
  | .setState s => return stateAnswer (some (← setState m (← s.eval f)))
  | .trySwitch inputs => return stateAnswer (← trySwitch m (← Expr.evalAll f inputs))
  | .switch inputs => return stateAnswer (some (← switch m (← Expr.evalAll f inputs)))
  | .run inputs => return stateAnswer (← run m (← Expr.evalAll f inputs))
  | .steps inputs limit =>
    return statesAnswer (← takeSteps m (← Expr.evalAll f inputs) .fresh limit)
  | .openStepper id inputs =>
    keep (.openStepper id m (← Expr.evalAll f inputs))
    return noAnswer
  | .assignCurrent slot v =>
    act (.assignCurrent m slot (← v.eval f))
    return noAnswer
  | .latest slot s => return .value (← latestOf m slot ((← evalOptional f s).getD .null))
  | .slots slot s => return .value (.list (← slotsOf m slot (← s.eval f)))
  | .hold name s =>
    let s ← resolve m (← s.eval f)
    keep (.hold name s)
    return .value (.state s)
  | .states [] => return statesAnswer (← look (.states m))
  | .states names => return statesAnswer (← resolveAll m (← Expr.evalAll f names))
  | .currentState => return stateAnswer (← look (.current m))
  | .previousState => return stateAnswer (← look (.previous m))
  | .stack =>
    let history ← look (.history m)
    return .value (.list (history.map Visit.name))
  | .rawHistory =>
    let history ← look (.history m)
    return .value (.list (history.map Visit.toValue))
  | .trace =>
    let history ← look (.history m)
    return .value (.text (← look (.write (.trace (rawPairs history)))))
  | .table =>
    let table ← look (.table m)
    return .value (.list (table.map Machine.Row.toValue))
  | .digraph style =>
    let table ← look (.table m)
    return .value (.text (← look (.write (.drawing style table))))
  | .literal => return .value (.text (← look (.write (.literal (.machine m)))))
  | .strict => return .value (.bool (← look (.strict m)))
  | .setStrict v =>
    setStrict m (← v.eval f).truthy
    return noAnswer
  | .done => return .value (← done m)
  | .setDone v =>
    setDone m (← v.eval f)
    return noAnswer
  | .notes => return .value (.map (← look (.notes m)))
  | .setNote key v =>
    let v ← v.eval f
    let key ← key.eval f
    requireHashable key
    adjust m (.note key v)
    return noAnswer
  | .eraseNote key =>
    let key ← key.eval f
    requireHashable key
    let notes ← look (.notes m)
    adjust m (.eraseNote key)
    return .value ((notes.get? key).getD .null)

/-! ## All commands -/

def perform (f : Frame) (i : Instruction) : Run Reply := do
  match i.command with
  | .build table options =>
    let table ← table.eval f
    let options ←
      match options with
      | some exprs => some <$> evalOptions f exprs
      | none => pure none
    let m ← build table options
    keep (.bind i.boundName m)
    return noAnswer
  | .drop =>
    let _ ← require (.unbound i.boundName) (← look (.bound i.boundName))
    keep (.unbind i.boundName)
    return noAnswer
  | .free command => performFree f command
  | .onMachine command =>
    let m ← f.machine i.machine
    keeping m (performOn f m command)

end Run

end RuleMachine
