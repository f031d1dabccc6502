import RuleMachine.Value.Literal

/-!
# What can go wrong

Every failure has a `Cause`: what is malformed in a table, a rule or an action list, which
state is missing, why a machine cannot move, or what a function raised. `Cause.message` is
the one place where causes are worded. Names stand between double quotes as plain text, and
values that are shown because of what they are stand as literals.
-/

namespace RuleMachine

/-! ## Definitions -/

/-- The lists of actions that a state has. -/
inductive ActionSlot where
  | onEnter
  | body
  | onExit
deriving DecidableEq, Repr

/-- The key of an action list in the definition of a state. -/
def ActionSlot.key : ActionSlot → String
  | onEnter => "on_enter"
  | body => "do"
  | onExit => "on_exit"

/-- Where an action list stands. -/
inductive ActionPlace where
  | named (name : String)
  | slot (slot : ActionSlot) (state : Value)

/-- Why a value is no action list. -/
inductive ActionProblem where
  /-- It is neither a function nor anything that yields functions. -/
  | notActions (kind : String)
  /-- One of the items it yields, the first such one, is no function. -/
  | notFunction (index : Nat) (item : Value)

/-- Why a value is no rule. -/
inductive RuleProblem where
  | unknownKeys (keys : List Value)
  | noPredicate
  | bothActionKeys
  /-- The predicate of a record is a list, a tuple or a map. -/
  | compositePredicate (kind : String)
  | labelNotText
  | empty
  | actions (problem : ActionProblem)

/-- Options of a machine that must be truth values. -/
inductive Switch where
  | start
  | strict
deriving DecidableEq, Repr

def Switch.name : Switch → String
  | start => "start"
  | strict => "strict"

/-- The kinds of failure that a function can raise by itself. -/
inductive RaisedKind where
  | runtime
  | value
  | key
  | type
  | machine
  | table
deriving DecidableEq, Repr

/-! ## Causes -/

/-- The cause of a failure. -/
inductive Cause where
  -- action lists and rules
  | actions (place : ActionPlace) (problem : ActionProblem)
  | rule (source target : Value) (problem : RuleProblem)
  | notRules (source : Value)
  | notRulePair (index : Nat) (source item : Value)
  -- tables
  | notTable (kind : String)
  | notTableEntry (index : Nat) (item : Value)
  | unhashableName (name : Value)
  | duplicateState (name : Value)
  | notDefinition (state : Value) (kind : String)
  | unknownDefinitionKeys (state : Value) (keys : List Value)
  -- options
  | notBool (option : Switch) (kind : String)
  | frozenOption (field : String)
  -- looking states up, and moving between them
  | unknownState (name : Value) (referrer : Option Value)
  | notStarted
  | ambiguous (state : Value) (candidates : List Value)
  | noTransition (state : Value)
  | neverEntered (state : Value)
  | outlivedMachine (state : Value)
  -- functions and what they work with
  | raised (kind : RaisedKind) (message : String)
  | unhashableKey (kind : String)
  | unbound (id : String)
  | illTyped

/-! ## Wording -/

def inQuotes (s : String) : String := "\"" ++ s ++ "\""

def sortTexts (texts : List String) : List String := texts.mergeSort fun s t => !(t < s)

def ActionPlace.text (refs : RefText) : ActionPlace → String
  | named name => name
  | slot which state => which.key ++ " of state " ++ inQuotes (state.plain refs)

/-- What is said of the place of a value that is no action list. -/
def ActionProblem.text (refs : RefText) : ActionProblem → String
  | notActions kind => " must be a callable or a sequence of callables, got " ++ kind
  | notFunction index item =>
    " item " ++ toString index ++ " is not callable: " ++ item.literal refs

def RuleProblem.text (refs : RefText) : RuleProblem → String
  | unknownKeys keys =>
    " has unknown keys: " ++ String.intercalate ", " (sortTexts (keys.map (Value.plain refs)))
  | noPredicate => " is missing its \x27rule\x27 predicate"
  | bothActionKeys => " sets both \x27action\x27 and \x27actions\x27"
  | compositePredicate kind =>
    " \x27rule\x27 must be a callable or a constant, not a " ++ kind
  | labelNotText => " message must be a string"
  | empty => " is empty; a predicate is required"
  | actions problem => problem.text refs

/-- What a rule is called, by the names of its source and target. -/
def rulePlace (refs : RefText) (source target : Value) : String :=
  "rule from " ++ inQuotes (source.plain refs) ++ " to " ++ inQuotes (target.plain refs)

def Cause.message (refs : RefText) (cause : Cause) : String :=
  let name (v : Value) : String := inQuotes (v.plain refs)
  match cause with
  | actions place problem => place.text refs ++ problem.text refs
  | rule source target problem => rulePlace refs source target ++ problem.text refs
  | notRules source =>
    "rules of state " ++ name source ++
      " must be a mapping or a sequence of (target, rule) pairs"
  | notRulePair index source item =>
    "rule " ++ toString index ++ " of state " ++ name source ++
      " is not a (target, rule) pair: " ++ item.literal refs
  | notTable kind =>
    "State table must be a mapping or a sequence of (name, definition) pairs, got " ++ kind
  | notTableEntry index item =>
    "Table entry " ++ toString index ++ " is not a (name, definition) pair: " ++ item.literal refs
  | unhashableName v => "State names must be hashable, got " ++ v.literal refs
  | duplicateState v => "The state " ++ name v ++ " already exists"
  | notDefinition state kind =>
    "Definition of state " ++ name state ++ " must be a mapping, got " ++ kind
  | unknownDefinitionKeys state keys =>
    "Definition of state " ++ name state ++ " has unknown keys: " ++
      String.intercalate ", " (keys.map (Value.literal refs))
  | notBool option kind => option.name ++ " must be a bool, got " ++ kind
  | frozenOption field => "cannot assign to field " ++ quoteText field
  -- a referrer named null cannot be told from none
  | unknownState v none | unknownState v (some .null) => "No such state " ++ name v
  | unknownState v (some referrer) =>
    "Unknown state " ++ name v ++ " referenced by state " ++ name referrer
  | notStarted => "The machine has not been started"
  | ambiguous state candidates =>
    "Attempt to switch from state " ++ name state ++
      " improperly found multiple destination states: " ++
      String.intercalate ", " (candidates.map name)
  | noTransition state => "Cannot determine transition from state " ++ name state
  | neverEntered state => "State " ++ name state ++ " has not been entered"
  | outlivedMachine state => "State " ++ name state ++ " outlived its machine"
  -- a missing key is shown as what it is
  | raised .key message => quoteText message
  | raised _ message => message
  | unhashableKey kind => "unhashable type: \x27" ++ kind ++ "\x27"
  | unbound id => id
  | illTyped => "operand of the wrong kind"

/-- What a cause goes back to, if to another cause: an action list that is no good as the list that
it is, before it is the fault of a rule. -/
def Cause.origin? (refs : RefText) : Cause → Option Cause
  | rule source target (.actions problem) =>
    some (actions (.named (rulePlace refs source target)) problem)
  | _ => none

/-! ## Classes of errors -/

/-- The classes that errors are instances of. -/
inductive ErrorClass where
  -- what machines raise
  | machine
  | table
  | ruleDefinition
  | duplicateState
  | unknownState
  | notStarted
  | ambiguousTransition
  | noTransition
  -- what is not about machines
  | runtime
  | value
  | key
  | type
  | attr
  | frozenInstance
  /-- Nothing is bound to an id. -/
  | unbound
deriving DecidableEq, Repr

namespace ErrorClass

/-- The classes that a class is derived from. -/
def bases : ErrorClass → List ErrorClass
  | table => [machine, value]
  | ruleDefinition | duplicateState => [table]
  | unknownState => [machine, key]
  | notStarted | ambiguousTransition | noTransition => [machine]
  | frozenInstance => [attr]
  | machine | runtime | value | key | type | attr | unbound => []

/-- The classes that the instances of a class are instances of. -/
def ancestors (c : ErrorClass) : List ErrorClass :=
  c :: c.bases.flatMap fun base => base :: base.bases

theorem table_mem_ruleDefinition : table ∈ ruleDefinition.ancestors := by decide

theorem table_mem_duplicateState : table ∈ duplicateState.ancestors := by decide

theorem self_mem_ancestors (c : ErrorClass) : c ∈ c.ancestors := List.mem_cons_self

/-- No class has more than two generations above it. -/
theorem ancestors_trans {c d e : ErrorClass} (h : d ∈ c.ancestors) (h' : e ∈ d.ancestors) :
    e ∈ c.ancestors := by
  cases c <;> cases d <;> first | exact absurd h (by decide) | (revert h'; cases e <;> decide)

end ErrorClass

def RaisedKind.errorClass : RaisedKind → ErrorClass
  | runtime => .runtime
  | value => .value
  | key => .key
  | type => .type
  | machine => .machine
  | table => .table

def Cause.errorClass : Cause → ErrorClass
  | rule .. | notRules _ | notRulePair .. => .ruleDefinition
  | actions .. | notTable _ | notTableEntry .. | unhashableName _ | notDefinition ..
  | unknownDefinitionKeys .. => .table
  | duplicateState _ => .duplicateState
  | unknownState .. => .unknownState
  | notStarted => .notStarted
  | ambiguous .. => .ambiguousTransition
  | noTransition _ => .noTransition
  | neverEntered _ | outlivedMachine _ => .machine
  | notBool .. | unhashableKey _ | illTyped => .type
  | frozenOption _ => .frozenInstance
  | raised kind _ => kind.errorClass
  | unbound _ => .unbound

/-- It is the definition of a rule that goes back to an action list. -/
theorem Cause.errorClass_of_origin? {refs : RefText} {cause origin : Cause}
    (h : cause.origin? refs = some origin) :
    cause.errorClass = .ruleDefinition ∧ origin.errorClass = .table := by
  unfold origin? at h
  split at h
  · obtain rfl := Option.some.inj h
    exact ⟨rfl, rfl⟩
  · cases h

/-- A failure: its cause, and its message as it was worded when it arose, since the text of a
machine changes as it runs. -/
structure Fault where
  cause : Cause
  message : String

end RuleMachine
