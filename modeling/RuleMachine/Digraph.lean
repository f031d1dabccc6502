import RuleMachine.Machine.Basic

/-!
# Directed graphs in the DOT language

A machine is drawn as a directed graph: a node for each state, the first with a double outline,
and an edge for each rule, with its label if it has one. `Digraph.source` writes a graph as DOT
text and `Machine.digraph` makes the graph of a machine.

Names, attribute keys and attribute values are identifiers. What DOT reads as one identifier
without quotes, and markup between angle brackets, is written as it is; everything else is
quoted. The ends of an edge are more: a colon in an end parts the node from the field of the
node at which the edge is attached, and a second one the field from a compass point.
-/

namespace RuleMachine

/-! ## Identifiers -/

namespace Dot

/-- Drops one line feed at the end, which identifiers are allowed to have. -/
def dropFinalNewline (cs : List Char) : List Char :=
  match cs.reverse with
  | '\n' :: rest => rest.reverse
  | _ => cs

def isWordStart (c : Char) : Bool := c.isAlpha || c == '_'

/-- Words of ASCII letters, digits and underscores that do not begin with a digit. -/
def isWord : List Char → Bool
  | [] => false
  | c :: rest => isWordStart c && rest.all fun d => isWordStart d || d.isDigit

/-- Decimal numerals without a sign: digits with an optional point among or after them, or a point
before digits. -/
def isUnsignedNumeral (cs : List Char) : Bool :=
  let whole := cs.takeWhile Char.isDigit
  match cs.dropWhile Char.isDigit with
  | [] => !whole.isEmpty
  | '.' :: fraction => fraction.all Char.isDigit && !(whole.isEmpty && fraction.isEmpty)
  | _ => false

def isNumeral : List Char → Bool
  | '-' :: rest => isUnsignedNumeral rest
  | cs => isUnsignedNumeral cs

def keywords : List String := ["node", "edge", "graph", "digraph", "subgraph", "strict"]

/-- Whether text is one identifier without quotes. A keyword with a line feed after it counts. -/
def isIdentifier (s : String) : Bool :=
  let cs := dropFinalNewline s.toList
  (isWord cs || isNumeral cs) &&
    !keywords.contains (String.ofList (s.toList.map Char.toLower))

def isMarkup (s : String) : Bool :=
  match s.toList with
  | '<' :: rest => (dropFinalNewline rest).getLast? == some '>'
  | _ => false

/-- Escapes the quotes in text. A quote after an odd run of backslashes is escaped already;
`backslashes` counts the run before the first character. -/
def escapeQuotes (backslashes : Nat) : List Char → List Char
  | [] => []
  | '\\' :: rest => '\\' :: escapeQuotes (backslashes + 1) rest
  | '"' :: rest =>
    if backslashes % 2 = 0 then '\\' :: '"' :: escapeQuotes 0 rest else '"' :: escapeQuotes 0 rest
  | c :: rest => c :: escapeQuotes 0 rest

def quote (s : String) : String :=
  if isMarkup s || isIdentifier s then s
  else String.ofList ('"' :: escapeQuotes 0 s.toList ++ ['"'])

def splitColon (cs : List Char) : List Char × List Char :=
  (cs.takeWhile (· != ':'), (cs.dropWhile (· != ':')).drop 1)

/-- Text as an end of an edge: a node, a field of it and a compass point. -/
def quoteEnd (s : String) : String :=
  let (node, rest) := splitColon s.toList
  let (field, compass) := splitColon rest
  quote (String.ofList node) ++
    (if rest.isEmpty then ""
     else ":" ++ quote (String.ofList field) ++
       (if compass.isEmpty then "" else ":" ++ String.ofList compass))

/-! ## Attributes -/

/-- Attributes by key. An attribute without a value is not written. -/
abbrev Attributes := List (String × Option String)

/-- Attributes that have a value, in the order of their keys. -/
def Attributes.written (attributes : Attributes) : List (String × String) :=
  (attributes.filterMap fun (key, v) => v.map (key, ·)).mergeSort fun a b => !(b.1 < a.1)

def Attributes.text (attributes : Attributes) : String :=
  let items := (written attributes).map fun (key, v) => quote key ++ "=" ++ quote v
  if items.isEmpty then "" else " [" ++ String.intercalate " " items ++ "]"

end Dot

/-! ## Graphs -/

/-- A statement of a graph. -/
inductive Dot.Statement where
  | node (name : String) (attributes : Dot.Attributes)
  | edge (tail head : String) (attributes : Dot.Attributes)

def Dot.Statement.text : Dot.Statement → String
  | node name attributes => "\t" ++ Dot.quote name ++ attributes.text ++ "\n"
  | edge tail head attributes =>
    "\t" ++ Dot.quoteEnd tail ++ " -> " ++ Dot.quoteEnd head ++ attributes.text ++ "\n"

/-- How a graph is presented: its name and comment, whether it is strict, attributes for the
graph, all nodes and all edges, and lines to put before the statements as they are. -/
structure Digraph.Style where
  name : Option String
  comment : Option String
  strict : Bool
  graph : Dot.Attributes
  node : Dot.Attributes
  edge : Dot.Attributes
  body : List String

/-- A graph without a name or anything else to set it apart. -/
def Digraph.Style.default : Digraph.Style :=
  { name := none, comment := none, strict := false
    graph := [], node := [], edge := [], body := [] }

/-- A directed graph. -/
structure Digraph where
  style : Digraph.Style
  statements : List Dot.Statement

namespace Digraph

/-- The line of attributes for all elements of a kind, if any are given. -/
def defaultsText (kind : String) (attributes : Dot.Attributes) : String :=
  if attributes.isEmpty then "" else "\t" ++ kind ++ attributes.text ++ "\n"

def present? (s : Option String) : Option String := s.filter fun s => !s.isEmpty

/-- What is written before the statements of a graph. -/
def Style.opening (style : Style) : String :=
  let comment :=
    match present? style.comment with
    | some text => "// " ++ text ++ "\n"
    | none => ""
  let name :=
    match present? style.name with
    | some name => Dot.quote name ++ " "
    | none => ""
  comment ++ (if style.strict then "strict " else "") ++ "digraph " ++ name ++ "\x7b\n" ++
    defaultsText "graph" style.graph ++ defaultsText "node" style.node ++
    defaultsText "edge" style.edge ++ String.join style.body

def source (g : Digraph) : String :=
  g.style.opening ++ String.join (g.statements.map Dot.Statement.text) ++ "\x7d\n"

end Digraph

/-! ## The graph of a machine -/

/-- The statement of the node of a state, which is the first one or not. -/
def nodeStatement (first : Bool) (name : String) : Dot.Statement :=
  .node name (if first then [("peripheries", some "2")] else [])

def edgeStatements (refs : RefText) (row : Machine.Row) : List Dot.Statement :=
  row.rules.map fun (target, label) =>
    .edge (row.name.plain refs) (target.plain refs)
      (match label with
       | some text => [("label", some text)]
       | none => [])

def Digraph.ofTable (refs : RefText) (style : Digraph.Style) (table : List Machine.Row) : Digraph :=
  let names := table.map fun row => row.name.plain refs
  { style
    statements :=
      names.mapIdx (fun index name => nodeStatement (index == 0) name) ++
        table.flatMap (edgeStatements refs) }

/-- The graph of a machine. Only the table is drawn, nothing that changes as the machine runs. -/
def Machine.digraph (refs : RefText) (style : Digraph.Style) (m : Machine) : Digraph :=
  .ofTable refs style m.table

end RuleMachine
