import RuleMachine.Machine.Basic

/-!
# State tables

A table lists states in order, each with a definition: a map with the keys `on_enter`, `do`,
`on_exit` and `rules`, all of them optional, or nothing. It is given as a map or as pairs of
a name and a definition.

A table is read in three passes, so that states may be mentioned before they are declared:
its entries first, then the declaration of each state (`readDeclarations`), and the rules of
each state when all names are known (`readTable`). The first violation in that order is the
one that is reported.
-/

namespace RuleMachine

/-- A state as it is declared, before its rules are read. -/
structure Declaration where
  name : Value
  onEnter : List FunctionName
  body : List FunctionName
  onExit : List FunctionName
  rules : Value

/-! ## Entries -/

def readEntries (table : Value) : Reading Cause (List (Value × Value)) := do
  match table with
  | .map entries => return entries
  | v => readPairs v (.notTable v.typeName) fun index item => .notTableEntry index item

/-! ## Declarations -/

/-- Whether a key may stand in the definition of a state. -/
def isDefinitionKey (key : Value) : Bool :=
  ["on_enter", "do", "on_exit", "rules"].any fun known => key.eqv (.text known)

def checkName (declared : List Value) (name : Value) : Except Cause Unit :=
  if !name.hashable then .error (.unhashableName name)
  else if declared.any fun other => other.eqv name then .error (.duplicateState name)
  else .ok ()

/-- Checks the definition of a state. No definition is an empty one. -/
def checkDefinition (name definition : Value) : Except Cause Entries :=
  match definition with
  | .null => .ok []
  | .map entries =>
    let unknown := (Entries.keys entries).filter fun key => !isDefinitionKey key
    if unknown.isEmpty then .ok entries else .error (.unknownDefinitionKeys name unknown)
  | v => .error (.notDefinition name v.typeName)

/-- Reads the declaration of a state, apart from its rules. -/
def readDeclaration (declared : List Value) (name definition : Value) :
    Reading Cause Declaration := do
  Reading.ofExcept (checkName declared name)
  let entries ← Reading.ofExcept (checkDefinition name definition)
  let field (key : String) : Value := (entries.get? (.text key)).getD .null
  let onEnter ← readActionsAt (.slot .onEnter name) (field ActionSlot.onEnter.key)
  let body ← readActionsAt (.slot .body name) (field ActionSlot.body.key)
  let onExit ← readActionsAt (.slot .onExit name) (field ActionSlot.onExit.key)
  return { name, onEnter, body, onExit, rules := field "rules" }

/-- Reads the declarations of several states, given the names declared before them. -/
def readDeclarations (declared : List Value) :
    List (Value × Value) → Reading Cause (List Declaration)
  | [] => return []
  | (name, definition) :: rest => do
    let first ← readDeclaration declared name definition
    let others ← readDeclarations (declared ++ [name]) rest
    return first :: others

/-! ## Rules -/

/-- The machine of declared states that have no rules yet. -/
def Machine.ofDeclarations (declarations : List Declaration) : Machine :=
  .ofStates (declarations.map fun d =>
    { name := d.name, onEnter := d.onEnter, body := d.body, onExit := d.onExit
      rules := [], visits := [] })

/-- Reads rules given as pairs of a target and a definition; the targets are states of a machine
that is being built and will be called `self`. -/
def readRules (m : Machine) (self : MachineRef) (source : Value) :
    List (Value × Value) → Reading Cause (List Rule)
  | [] => return []
  | (target, spec) :: rest => do
    let some index := m.resolve? self target | throw (.unknownState target (some source))
    let rule ← readRule source (m.nameOf index) { machine := self, index } spec
    let others ← readRules m self source rest
    return rule :: others

def readAllRules (m : Machine) (self : MachineRef) :
    List Declaration → Reading Cause (List (List Rule))
  | [] => return []
  | d :: rest => do
    let pairs ← readRulePairs d.name d.rules
    let rules ← readRules m self d.name pairs
    let others ← readAllRules m self rest
    return rules :: others

/-- Reads a table and builds a machine from it, to be called `self`. -/
def readTable (self : MachineRef) (table : Value) : Reading Cause Machine := do
  let entries ← readEntries table
  let declarations ← readDeclarations [] entries
  let m := Machine.ofDeclarations declarations
  let rules ← readAllRules m self declarations
  return { m with states := m.states.zipWith (fun s rules => { s with rules }) rules }

end RuleMachine
