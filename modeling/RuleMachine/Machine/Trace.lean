import RuleMachine.Machine.Basic
import RuleMachine.Value.Layout

/-!
# Traces

A trace shows a history to people: a block for each visit with the name of the state, a map
of its slots spread over lines, and a blank line.
-/

namespace RuleMachine

def traceBlock (refs : RefText) (name slots : Value) : String :=
  "State: " ++ name.plain refs ++ "\n" ++ slots.layout refs ++ "\n\n"

/-- The trace of a history given as pairs of a name and slots. -/
def traceText (refs : RefText) (history : List (Value × Value)) : String :=
  String.join (history.map fun (name, slots) => traceBlock refs name slots)

def rawPairs (history : List Visit) : List (Value × Value) :=
  history.map fun visit => (visit.name, visit.slots)

/-- The history of a machine as pairs of a name and a map of the slots. -/
def Machine.rawHistory (m : Machine) : List (Value × Value) := rawPairs m.history

def Machine.trace (refs : RefText) (m : Machine) : String := traceText refs m.rawHistory

end RuleMachine
