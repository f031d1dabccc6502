import RuleMachine.Definition.Stream
import RuleMachine.Fault

/-!
# Action lists

An action list is given as nothing, as a single function, or as anything that yields only
functions: a sequence, a set, a map by its keys, or a stream. `readActions` makes a list of it
and keeps the order; text and bytes are no action lists.
-/

namespace RuleMachine

/-- The functions that the items of an action list are; the first item that is no function is the
problem. `index` counts the items before these. -/
def functionsFrom (index : Nat) : List Value → Except ActionProblem (List FunctionName)
  | [] => .ok []
  | v :: rest =>
    match v.function? with
    | none => .error (.notFunction index v)
    | some name => (functionsFrom (index + 1) rest).map (name :: ·)

def readActions (v : Value) : Reading ActionProblem (List FunctionName) := do
  match v with
  | .null => return []
  | .function name => return [name]
  | v =>
    match ← readItems? v with
    | none => throw (.notActions v.typeName)
    | some items => .ofExcept (functionsFrom 0 items)

def readActionsAt (place : ActionPlace) (v : Value) : Reading Cause (List FunctionName) :=
  (readActions v).mapProblem (Cause.actions place)

end RuleMachine
