import RuleMachine.Definition.Actions

/-!
# Rules

A rule is a candidate for the way out of a state: a target, a predicate that decides whether
the rule applies, a label for drawings, and the actions run between the two states.

A rule is defined by a record with the keys `rule`, `message` and `action` or `actions`, or in
short by a sequence that begins with the predicate and goes on with the actions, or by the
predicate alone. A predicate is a function or a constant. `readRule` accepts the three forms
and `readRulePairs` the ways to list the rules of a state.
-/

namespace RuleMachine

/-- What decides: a function, asked each time, or a constant. -/
inductive Predicate where
  | function (name : FunctionName)
  | constant (v : Value)
deriving Inhabited

/-- The predicate that a value is: a function itself, anything else as a constant. -/
def Predicate.ofValue : Value → Predicate
  | .function name => function name
  | v => constant v

/-- The form that a rule was defined in. -/
inductive RuleKind where
  | predicate
  | constant
  | labeled
deriving DecidableEq, Repr

/-- The form of a rule that was defined by its predicate alone or by a sequence. -/
def Predicate.kind : Predicate → RuleKind
  | function _ => .predicate
  | constant _ => .constant

/-- A rule. -/
structure Rule where
  target : StateRef
  predicate : Predicate
  label : Option String
  actions : List FunctionName
  kind : RuleKind

/-! ## Reading one rule -/

def isRuleKey (key : Value) : Bool :=
  ["rule", "message", "action", "actions"].any fun known => key.eqv (.text known)

/-- The label in the record of a rule. A label that is null is none. -/
def readLabel (record : Entries) : Except RuleProblem (Option String) :=
  match record.get? (.text "message") with
  | none | some .null => .ok none
  | some (.text label) => .ok (some label)
  | some _ => .error .labelNotText

/-- The parts of a record that use no stream, checked in order: its predicate, its label, and the
value of its action list. -/
def checkRecord (record : Entries) : Except RuleProblem (Predicate × Option String × Value) := do
  let unknown := record.keys.filter fun key => !isRuleKey key
  unless unknown.isEmpty do throw (.unknownKeys unknown)
  let some value := record.get? (.text "rule") | throw .noPredicate
  let action := record.get? (.text "action")
  let actions := record.get? (.text "actions")
  if action.isSome && actions.isSome then throw .bothActionKeys
  match value with
  | .list _ | .tuple _ | .map _ => throw (.compositePredicate value.typeName)
  | _ => pure ()
  let label ← readLabel record
  return (Predicate.ofValue value, label, (action.or actions).getD .null)

def readRuleTo (target : StateRef) (spec : Value) : Reading RuleProblem Rule := do
  match spec with
  | .map record =>
    let (predicate, label, actionList) ← Reading.ofExcept (checkRecord record)
    let actions ← (readActions actionList).mapProblem .actions
    return { target, predicate, label, actions, kind := .labeled }
  | .list [] | .tuple [] => throw .empty
  | .list (first :: rest) | .tuple (first :: rest) =>
    let predicate := Predicate.ofValue first
    let actions ← (readActions (.list rest)).mapProblem .actions
    return { target, predicate, label := none, actions, kind := predicate.kind }
  | v =>
    let predicate := Predicate.ofValue v
    return { target, predicate, label := none, actions := [], kind := predicate.kind }

/-- Reads the definition of a rule. The names of its source and target are what messages mention. -/
def readRule (source targetName : Value) (target : StateRef) (spec : Value) :
    Reading Cause Rule :=
  (readRuleTo target spec).mapProblem (Cause.rule source targetName)

/-! ## Reading the rules of a state -/

/-- Reads the rules of a state as pairs of a target and the definition of a rule, in order:
nothing, the entries of a map, or pairs that a value yields. -/
def readRulePairs (source spec : Value) : Reading Cause (List (Value × Value)) := do
  match spec with
  | .null => return []
  | .map entries => return entries
  | v => readPairs v (Cause.notRules source) fun index item => .notRulePair index source item

end RuleMachine
