import RuleMachine.Engine.Slots
import RuleMachine.Value.Order

/-!
# Expressions

Scripts compute values by expressions: constants, containers of expressions, and operators that
ask about the arguments of the running function, about machines and about states. All operands
of an operator are evaluated first, from left to right, also those that it then ignores.

Inside a function an expression has a machine it is about: that of the state, or the machine
itself, that the function was called with first, and failing that the machine bound to the
default name.
-/

namespace RuleMachine

/-- The name of the machine that is meant when none is named. -/
def defaultMachine : String := "m"

/-! ## Frames -/

/-- Where a script runs: in the body of a function with some arguments, or outside of functions. -/
structure Frame where
  args : Option (List Value)

namespace Frame

def outermost : Frame := { args := none }

def inFunction (args : List Value) : Frame := { args := some args }

def arguments (f : Frame) : List Value := f.args.getD []

/-- The machine that a frame is about. Outside of functions there is none, and a state whose
machine is gone gives none. -/
def subject (f : Frame) : Run (Option MachineRef) := do
  match f.args with
  | none => return none
  | some (.state s :: _) => return if ← Run.look (.alive s.machine) then some s.machine else none
  | some (.machine m :: _) => return some m
  | some _ => Run.look (.bound defaultMachine)

/-- The machine that is meant by a name, or without one: the one the frame is about, or else the one
bound to the default name. -/
def machine (f : Frame) (id : Option String) : Run MachineRef := do
  match id with
  | some id => Run.require (.unbound id) (← Run.look (.bound id))
  | none =>
    match ← f.subject with
    | some m => return m
    | none => Run.require (.unbound defaultMachine) (← Run.look (.bound defaultMachine))

end Frame

/-! ## Operators -/

/-- The operators. -/
inductive Operator where
  -- the running function
  | arg
  | argCount
  | held
  -- machines
  | machine
  | state
  | current
  | stackLength
  | note
  -- states
  | name
  | visits
  | latest (slot : Slot)
  | slots (slot : Slot)
  -- values
  | equal
  | less
  | not
  | and
  | or
  | add
  | length
  | member
  | choose
deriving DecidableEq, Repr

def Value.int? : Value → Option Int
  | .bool b => some (if b then 1 else 0)
  | .int i => some i
  | _ => none

/-- The number of items of a container, of characters of a text or of bytes. -/
def Value.length? : Value → Option Nat
  | .text s => some s.length
  | .bytes bs => some bs.length
  | .list items | .tuple items | .set items => some items.length
  | .map entries => some entries.length
  | _ => none

/-- The sum of two integers, or two texts or lists end to end. -/
def Value.add? : Value → Value → Option Value
  | .text s, .text t => some (.text (s ++ t))
  | .list xs, .list ys => some (.list (xs ++ ys))
  | v, w =>
    match v.int?, w.int? with
    | some i, some j => some (.int (i + j))
    | _, _ => none

/-- The members that a container is asked about: items, or the keys of a map. -/
def Value.members? : Value → Option (List Value)
  | .list items | .tuple items | .set items => some items
  | .map entries => some (Entries.keys entries)
  | _ => none

namespace Run

def stateOf (v : Value) : Run StateRef := require .illTyped v.state?

def optionalState (s : Option StateRef) : Value := (s.map Value.state).getD .null

def requireHashable (v : Value) : Run Unit := do
  match v.unhashable? with
  | some kind => fail (.unhashableKey kind)
  | none => pure ()

def operate (f : Frame) (op : Operator) (operands : List Value) : Run Value := do
  match op, operands with
  | .arg, [.int i] =>
    return if i < 0 then .null else f.arguments[i.toNat]?.getD .null
  | .argCount, [] => return .int f.arguments.length
  | .held, [.text id] => return .state (← require (.unbound id) (← look (.held id)))
  | .machine, [] => return (← f.subject).elim .null Value.machine
  | .machine, [.text id] => return .machine (← f.machine (some id))
  | .state, [v] => return .state (← resolve (← f.machine none) v)
  | .state, [v, .text id] => return .state (← resolve (← f.machine (some id)) v)
  | .current, [] => return optionalState (← look (.current (← f.machine none)))
  | .stackLength, [] =>
    let history ← look (.history (← f.machine none))
    return .int history.length
  | .note, [key] =>
    requireHashable key
    let notes ← look (.notes (← f.machine none))
    return (notes.get? key).getD .null
  | .note, [key, other] =>
    requireHashable key
    let notes ← look (.notes (← f.machine none))
    return (notes.get? key).getD other
  | .name, [v] => look (.name (← stateOf v))
  | .visits, [v] => return .int (← look (.visitCount (← stateOf v)))
  | .latest slot, [v] => look (.latest (← stateOf v) slot)
  | .slots slot, [v] => return .list (← look (.slots (← stateOf v) slot))
  | .equal, [v, w] => return .bool (v.equal w)
  | .less, [v, w] => return .bool (← require .illTyped (v.less? w))
  | .not, [v] => return .bool !v.truthy
  | .and, [v, w] => return .bool (v.truthy && w.truthy)
  | .or, [v, w] => return .bool (v.truthy || w.truthy)
  | .add, [v, w] => require .illTyped (v.add? w)
  | .length, [v] => return .int (← require .illTyped v.length?)
  | .member, [v, container] =>
    let members ← require .illTyped container.members?
    return .bool (members.any fun item => item.eqv v)
  | .choose, [condition, v, w] => return if condition.truthy then v else w
  | _, _ => fail .illTyped

end Run

/-! ## Expressions -/

/-- Expressions. A NaN and a stream are made anew each time they are evaluated. -/
inductive Expr where
  | constant (v : Value)
  | nan
  | list (items : List Expr)
  | tuple (items : List Expr)
  | map (entries : List (Expr × Expr))
  | set (items : List Expr)
  | stream (items : List Expr)
  | apply (op : Operator) (operands : List Expr)
deriving Inhabited

namespace Run

/-- The map made by inserting pairs in order; all keys must be hashable. -/
def makeMap (pairs : List (Value × Value)) : Run Value := do
  match pairs.findSome? fun (key, _) => key.unhashable? with
  | some kind => fail (.unhashableKey kind)
  | none => return .map (Entries.ofPairs pairs)

/-- The set of some members, each once; all must be hashable. -/
def makeSet (items : List Value) : Run Value := do
  match items.findSome? Value.unhashable? with
  | some kind => fail (.unhashableKey kind)
  | none => return .set (Entries.ofPairs (items.map fun v => (v, .null))).keys

end Run

namespace Expr

mutual

def eval (f : Frame) (e : Expr) : Run Value := do
  match e with
  | constant v => return v
  | nan => Run.act .nan
  | list items => return .list (← evalAll f items)
  | tuple items => return .tuple (← evalAll f items)
  | map entries => Run.makeMap (← evalEntries f entries)
  | set items => Run.makeSet (← evalAll f items)
  | stream items => Run.act (.stream (← evalAll f items))
  | apply op operands => Run.operate f op (← evalAll f operands)

def evalAll (f : Frame) (es : List Expr) : Run (List Value) := do
  match es with
  | [] => return []
  | e :: rest =>
    let v ← eval f e
    let vs ← evalAll f rest
    return v :: vs

def evalEntries (f : Frame) (entries : List (Expr × Expr)) : Run (List (Value × Value)) := do
  match entries with
  | [] => return []
  | (key, e) :: rest =>
    let k ← eval f key
    let v ← eval f e
    let others ← evalEntries f rest
    return (k, v) :: others

end

end Expr

end RuleMachine
