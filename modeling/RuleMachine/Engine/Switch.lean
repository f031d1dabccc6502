import RuleMachine.Engine.Lifecycle

/-!
# Switching by rule

A machine leaves its current state by a rule whose predicate holds. Ordinarily that is the
first such rule, and no predicate after it is asked (`Run.firstMatch`). In strict mode all are
asked (`Run.matching`), and more than one match is an error.

The state whose rules are asked, its rules and the mode are those at the beginning. Predicates
may move the machine; the entry that follows starts from wherever it is by then.
-/

namespace RuleMachine

namespace Run

/-! ## Asking predicates -/

def ask (predicate : Predicate) (args : List Value) : Run Value :=
  match predicate with
  | .function f => call f args
  | .constant v => pure v

/-- The first rule that holds. The rules after it are not asked. -/
def firstMatch (args : List Value) : List Rule → Run (Option Rule)
  | [] => return none
  | rule :: rest => do
    let answer ← ask rule.predicate args
    if answer.truthy then return some rule else firstMatch args rest

def matching (args : List Value) : List Rule → Run (List Rule)
  | [] => return []
  | rule :: rest => do
    let answer ← ask rule.predicate args
    let others ← matching args rest
    return if answer.truthy then rule :: others else others

def namesOf : List StateRef → Run (List Value)
  | [] => return []
  | s :: rest => do
    let name ← look (.name s)
    let others ← namesOf rest
    return name :: others

/-- The rule to follow out of a state, given its rules and the mode. -/
def choose (s : StateRef) (rules : List Rule) (strict : Bool) (inputs : List Value) :
    Run (Option Rule) := do
  let args := .state s :: inputs
  if strict then
    match ← matching args rules with
    | [] => return none
    | [rule] => return some rule
    | several =>
      let name ← look (.name s)
      let candidates ← namesOf (several.map Rule.target)
      fail (.ambiguous name candidates)
  else firstMatch args rules

/-! ## Switching -/

/-- Follows a rule out of the current state if there is one to follow, and gives the state
entered. -/
def trySwitch (m : MachineRef) (inputs : List Value) : Run (Option StateRef) := do
  let s ← currentState m
  let rules ← look (.rules s)
  let strict ← look (.strict m)
  match ← choose s rules strict inputs with
  | none =>
    keep (.noTransition m (← look (.name s)))
    return none
  | some rule =>
    keep (.switching m (← look (.name s)) (← look (.name rule.target)))
    return some (← enter rule.target rule.actions)

/-- Follows a rule out of the current state; it is an error if there is none to follow. The error
names the state that is current by then. -/
def switch (m : MachineRef) (inputs : List Value) : Run StateRef := do
  match ← trySwitch m inputs with
  | some s => return s
  | none =>
    let s ← currentState m
    fail (.noTransition (← look (.name s)))

end Run

end RuleMachine
