import RuleMachine.Number.Shortest
import RuleMachine.Text.Quoted
import RuleMachine.Value.Basic

/-!
# The text of a value

`Value.literal` writes a value so that its kind shows: text in quotes, whole doubles with a
point, sequences in their brackets. `Value.plain` writes text as it is and everything else as
its literal; it is what messages put between their own quotes.

The text of a machine changes as it runs, and the text of a state names the state, so both
come from outside, as a `RefText`.
-/

namespace RuleMachine

/-- How references are written. -/
structure RefText where
  state : StateRef → String
  machine : MachineRef → String

/-- Puts the brackets of a tuple around its items, which end in a comma when there is one. -/
def tupleText (items : List String) : String :=
  match items with
  | [item] => "(" ++ item ++ ",)"
  | items => "(" ++ String.intercalate ", " items ++ ")"

def mapText (entries : List String) : String :=
  "\x7b" ++ String.intercalate ", " entries ++ "\x7d"

/-- Puts the brackets of a set around its members; the empty set has a name, as empty brackets are
a map. -/
def setText (items : List String) : String :=
  if items.isEmpty then "set()" else "\x7b" ++ String.intercalate ", " items ++ "\x7d"

namespace Value

mutual

def literal (refs : RefText) (v : Value) : String :=
  match v with
  | null => "None"
  | bool b => if b then "True" else "False"
  | int i => toString i
  | float x => x.text
  | nan _ => "nan"
  | text s => quoteText s
  | bytes bs => quoteBytes bs
  | list items => "[" ++ String.intercalate ", " (literals refs items) ++ "]"
  | tuple items => tupleText (literals refs items)
  | map entries => mapText (entryLiterals refs entries)
  | set items => setText (literals refs items)
  | function name => "<fn " ++ name ++ ">"
  | stream _ => "<generator>"
  | state ref => refs.state ref
  | machine ref => refs.machine ref

def literals (refs : RefText) (items : List Value) : List String :=
  match items with
  | [] => []
  | v :: rest => literal refs v :: literals refs rest

/-- The literals of entries: key and value parted by a colon. -/
def entryLiterals (refs : RefText) (entries : List (Value × Value)) : List String :=
  match entries with
  | [] => []
  | (k, v) :: rest => (literal refs k ++ ": " ++ literal refs v) :: entryLiterals refs rest

end

/-- The text of a value inside a message: text as it is, anything else as its literal. -/
def plain (refs : RefText) (v : Value) : String :=
  match v with
  | text s => s
  | v => v.literal refs

end Value

end RuleMachine
