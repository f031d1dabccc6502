import RuleMachine.Definition.Options
import RuleMachine.Digraph
import RuleMachine.Machine.Trace

/-!
# What is written out

Programs ask for texts: of a value, of options, of a history, of the drawing of a table. Such a text
depends on where the machines stand that are mentioned in it, so a program does not make it by
itself.
-/

namespace RuleMachine

/-- What can be written out. -/
inductive Writing where
  | literal (v : Value)
  | options (o : Options)
  | trace (history : List (Value × Value))
  | drawing (style : Digraph.Style) (table : List Machine.Row)

def Writing.text (refs : RefText) : Writing → String
  | literal v => v.literal refs
  | options o => o.text refs
  | trace history => traceText refs history
  | drawing style table => (Digraph.ofTable refs style table).source

end RuleMachine
