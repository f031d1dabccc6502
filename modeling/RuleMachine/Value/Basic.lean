import RuleMachine.Number.Binary64

/-!
# Values

A state table is data: state names, rule definitions, action lists, constants, results and
notes are all values of the one type `Value`. Besides plain data it holds functions, which
are named here and defined by whoever runs the machine; streams, which yield their items
once; and references to machines and to their states.

This module says what a value is, which values count as true, which may be keys, and what
the kind of a value is called.
-/

namespace RuleMachine

/-- The name of a function. Two functions are the same when their names are. -/
abbrev FunctionName := String

/-- A machine, by its place among the machines built so far. -/
abbrev MachineRef := Nat

/-- A state of a machine, by its place in the machine's table. -/
structure StateRef where
  machine : MachineRef
  index : Nat
deriving DecidableEq, Repr, Inhabited

/-- Dynamic values.

* `nan` carries a tag because every NaN is an object of its own: it equals only itself, and only
  where identity is asked for.
* `map` keeps its entries in the order in which their keys were first inserted.
* `stream` is a source of items that can be read once; the items left are kept apart from the
  value. -/
inductive Value where
  | null
  | bool (b : Bool)
  | int (i : Int)
  | float (x : Binary64)
  | nan (tag : Nat)
  | text (s : String)
  | bytes (bs : List UInt8)
  | list (items : List Value)
  | tuple (items : List Value)
  | map (entries : List (Value × Value))
  | set (items : List Value)
  | function (name : FunctionName)
  | stream (id : Nat)
  | state (ref : StateRef)
  | machine (ref : MachineRef)
deriving Inhabited

namespace Value

/-- Which values count as true: all but null, false, the zeros and everything empty. -/
def truthy : Value → Bool
  | null => false
  | bool b => b
  | int i => i != 0
  | float x => !x.isZero
  | text s => !s.isEmpty
  | bytes bs => !bs.isEmpty
  | list items => !items.isEmpty
  | tuple items => !items.isEmpty
  | map entries => !entries.isEmpty
  | set items => !items.isEmpty
  | nan _ | function _ | stream _ | state _ | machine _ => true

def typeName : Value → String
  | null => "NoneType"
  | bool _ => "bool"
  | int _ => "int"
  | float _ | nan _ => "float"
  | text _ => "str"
  | bytes _ => "bytes"
  | list _ => "list"
  | tuple _ => "tuple"
  | map _ => "dict"
  | set _ => "set"
  | function _ => "Fn"
  | stream _ => "generator"
  | state _ => "State"
  | machine _ => "Machine"

mutual

/-- The kind of the first value that keeps `v` from being a key: a list, a map or a set, inside any
number of tuples. -/
def unhashable? (v : Value) : Option String :=
  match v with
  | list items => some (list items).typeName
  | map entries => some (map entries).typeName
  | set items => some (set items).typeName
  | tuple items => unhashableItem? items
  | _ => none

/-- The kind of the first value that keeps one of several items from being a key. -/
def unhashableItem? (items : List Value) : Option String :=
  match items with
  | [] => none
  | v :: rest =>
    match unhashable? v with
    | some kind => some kind
    | none => unhashableItem? rest

end

/-- Whether a value may be a key, and so the name of a state. -/
def hashable (v : Value) : Bool := v.unhashable?.isNone

def function? : Value → Option FunctionName
  | function name => some name
  | _ => none

def state? : Value → Option StateRef
  | state ref => some ref
  | _ => none

def text? : Value → Option String
  | text s => some s
  | _ => none

def pair? : Value → Option (Value × Value)
  | list [a, b] | tuple [a, b] => some (a, b)
  | _ => none

def record (fields : List (String × Value)) : Value :=
  map (fields.map fun (key, v) => (text key, v))

end Value

end RuleMachine
