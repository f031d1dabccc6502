import RuleMachine.Text.Blank
import RuleMachine.Value.Literal
import RuleMachine.Value.Order

/-!
# Values spread over lines

`Value.layout` shows a value in lines of sixty characters where that can be done. A value that
fits the rest of its line is written on it. Otherwise a container puts each item on a line of
its own, indented by one, and long text and bytes are cut into chunks, one to a line, with
parentheses around them when they are the whole value. Maps show their entries in the order of
their keys.

Three numbers steer it: the column at which the value begins; how many characters have to
follow it on its last line (its `allowance`); and whether it is the outermost value. Widths are
natural numbers, and a width that would be negative is zero: no literal is empty, so nothing
fits either one.
-/

namespace RuleMachine

def lineWidth : Nat := 60

namespace Value

/-! ## One line -/

mutual

/-- The literal of a value with the entries of maps in the order of their keys. -/
def sortedLiteral (refs : RefText) (v : Value) : String :=
  match v with
  | list items => "[" ++ String.intercalate ", " (sortedLiterals refs items) ++ "]"
  | tuple items => tupleText (sortedLiterals refs items)
  | map entries => mapText ((sortKeys (sortedEntryLiterals refs entries)).map Prod.snd)
  | v => v.literal refs

/-- The literals of several values with the entries of maps in order. -/
def sortedLiterals (refs : RefText) (items : List Value) : List String :=
  match items with
  | [] => []
  | v :: rest => sortedLiteral refs v :: sortedLiterals refs rest

def sortedEntryLiterals (refs : RefText) (entries : List (Value × Value)) :
    List (Value × String) :=
  match entries with
  | [] => []
  | (k, v) :: rest =>
    (k, sortedLiteral refs k ++ ": " ++ sortedLiteral refs v) :: sortedEntryLiterals refs rest

end

/-! ## Chunks of text and bytes -/

/-- Joins pieces greedily into chunks whose literals fit a width; `lastWidth` is the width at the
last piece. A piece that fits no line is a chunk by itself. -/
def fillText (width lastWidth : Nat) (current : List Char) :
    List (List Char) → List (List Char)
  | [] => if current.isEmpty then [] else [current]
  | piece :: rest =>
    let limit := if rest.isEmpty then lastWidth else width
    let candidate := current ++ piece
    if limit < (quoteChars candidate).length then
      let chunks := fillText width lastWidth piece rest
      if current.isEmpty then chunks else current :: chunks
    else fillText width lastWidth candidate rest

/-- The literals of the chunks of text: a line is one chunk if it fits, and is cut between words if
not. The last line has to leave room for what follows the text. -/
def textChunks (width allowance : Nat) : List (List Char) → List String
  | [] => []
  | line :: rest =>
    let lastWidth := if rest.isEmpty then width - allowance else width
    let chunks :=
      if (quoteChars line).length ≤ lastWidth then [line]
      else fillText width lastWidth [] (splitWords line)
    chunks.map (fun chunk => String.ofList (quoteChars chunk)) ++ textChunks width allowance rest

def splitBytes : List UInt8 → List (List UInt8)
  | a :: b :: c :: d :: rest => [a, b, c, d] :: splitBytes rest
  | [] => []
  | rest => [rest]

/-- Joins pieces of four bytes greedily into chunks whose literals fit a width. The width shrinks
at the piece that holds the bytes after the last full four; if there are none, it never does. -/
def fillBytes (width allowance : Nat) (current : List UInt8) : List (List UInt8) → List String
  | [] => if current.isEmpty then [] else [quoteBytes current]
  | piece :: rest =>
    let limit := if piece.length < 4 then width - allowance else width
    let candidate := current ++ piece
    if limit < (quoteBytes candidate).length then
      let chunks := fillBytes width allowance piece rest
      if current.isEmpty then chunks else quoteBytes current :: chunks
    else fillBytes width allowance candidate rest

def newline (column : Nat) : String := "\n" ++ String.ofList (List.replicate column ' ')

/-- Chunks on lines of their own, in parentheses if they are the whole value. -/
def stackChunks (outermost : Bool) (column : Nat) (chunks : List String) : String :=
  let body := String.intercalate (newline column) chunks
  if outermost then "(" ++ body ++ ")" else body

/-- Text that does not fit its line. Text that makes one chunk after all is written as that. -/
def layoutText (outermost : Bool) (column allowance : Nat) (s : String) : String :=
  if s.isEmpty then quoteText s
  else
    let column := if outermost then column + 1 else column
    let allowance := if outermost then allowance + 1 else allowance
    match textChunks (lineWidth - column) allowance (splitLines s.toList) with
    | [chunk] => chunk
    | chunks => stackChunks outermost column chunks

/-- Bytes that do not fit their line. Four bytes are never cut. -/
def layoutBytes (outermost : Bool) (column allowance : Nat) (bs : List UInt8) : String :=
  if bs.length ≤ 4 then quoteBytes bs
  else
    let column := if outermost then column + 1 else column
    let allowance := if outermost then allowance + 1 else allowance
    stackChunks outermost column (fillBytes (lineWidth - column) allowance [] (splitBytes bs))

/-! ## Containers -/

/-- A value waiting to be placed: its layout at a column and with an allowance, inside another
value. -/
abbrev Placed := (column allowance : Nat) → String

/-- Items one to a line. The last one is followed by what ends the container. -/
def placeItems (column allowance : Nat) : List Placed → String
  | [] => ""
  | [item] => item column allowance
  | item :: rest => item column 1 ++ "," ++ newline column ++ placeItems column allowance rest

/-- A key and its value, which begins after the key on the same line. -/
def placeEntry (keyText : String) (value : Placed) : Placed := fun column allowance =>
  keyText ++ ": " ++ value (column + keyText.length + 2) allowance

def placeBrackets (opening closing : String) (items : List Placed) : Placed :=
  fun column allowance =>
    opening ++ placeItems (column + 1) (allowance + closing.length) items ++ closing

mutual

/-- Lays a value out at a column, leaving room for what follows it. -/
def layoutAt (refs : RefText) (outermost : Bool) (v : Value) (column allowance : Nat) : String :=
  let line := v.sortedLiteral refs
  if line.length ≤ lineWidth - column - allowance then line
  else
    match v with
    | map entries =>
      let placed := (sortKeys (placedEntries refs entries)).map Prod.snd
      placeBrackets "\x7b" "\x7d" placed column allowance
    | list items => placeBrackets "[" "]" (placedItems refs items) column allowance
    | tuple items =>
      let closing := if items.length = 1 then ",)" else ")"
      placeBrackets "(" closing (placedItems refs items) column allowance
    | set items =>
      if items.isEmpty then line
      else
        let placed := (sortKeys (placedMembers refs items)).map Prod.snd
        placeBrackets "\x7b" "\x7d" placed column allowance
    | text s => layoutText outermost column allowance s
    | bytes bs => layoutBytes outermost column allowance bs
    | _ => line

def placedItems (refs : RefText) (items : List Value) : List Placed :=
  match items with
  | [] => []
  | v :: rest => layoutAt refs false v :: placedItems refs rest

/-- The layouts of the members of a set, beside the members they are sorted by. -/
def placedMembers (refs : RefText) (items : List Value) : List (Value × Placed) :=
  match items with
  | [] => []
  | v :: rest => (v, layoutAt refs false v) :: placedMembers refs rest

/-- The layouts of the entries of a map, beside their keys. -/
def placedEntries (refs : RefText) (entries : List (Value × Value)) : List (Value × Placed) :=
  match entries with
  | [] => []
  | (k, v) :: rest =>
    (k, placeEntry (k.sortedLiteral refs) (layoutAt refs false v)) :: placedEntries refs rest

end

def layout (refs : RefText) (v : Value) : String := layoutAt refs true v 0 0

end Value

end RuleMachine
