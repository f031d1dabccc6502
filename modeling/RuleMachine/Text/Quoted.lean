import RuleMachine.Text.Printable

/-!
# Quoted text and bytes

Text is shown between single quotes, or between double quotes when it holds a single quote
and no double one. The backslash and the quote in use are escaped, line feed, carriage return
and tab have letters of their own, and any other character that is not printable is written
by its code point in two, four or eight hexadecimal digits. Bytes follow the same rule for
quotes, after a `b`; every byte outside printable ASCII is written in two digits.
-/

namespace RuleMachine

/-- The last `width` hexadecimal digits of a number, most significant first. -/
def hexDigits : (width n : Nat) → List Char
  | 0, _ => []
  | width + 1, n => hexDigits width (n / 16) ++ [Nat.digitChar (n % 16)]

def singleQuote : Char := '\x27'

/-- The quote to put around characters: the single one, unless only the double one saves escapes. -/
def chooseQuote (cs : List Char) : Char :=
  if cs.contains singleQuote && !cs.contains '"' then '"' else singleQuote

/-- The letter that stands for a character after a backslash, if it has one. -/
def escapeLetter? : Char → Option Char
  | '\n' => some 'n'
  | '\r' => some 'r'
  | '\t' => some 't'
  | _ => none

def escapeChar (quote c : Char) : List Char :=
  if c = quote ∨ c = '\\' then ['\\', c]
  else
    match escapeLetter? c with
    | some letter => ['\\', letter]
    | none =>
      if isPrintable c then [c]
      else if c.toNat < 0x100 then '\\' :: 'x' :: hexDigits 2 c.toNat
      else if c.toNat < 0x10000 then '\\' :: 'u' :: hexDigits 4 c.toNat
      else '\\' :: 'U' :: hexDigits 8 c.toNat

def quoteChars (cs : List Char) : List Char :=
  let quote := chooseQuote cs
  quote :: cs.flatMap (escapeChar quote) ++ [quote]

def quoteText (s : String) : String := String.ofList (quoteChars s.toList)

/-- A byte as it is written between quotes: as the ASCII character it codes, if that can be
printed. -/
def escapeByte (quote : Char) (b : UInt8) : List Char :=
  if b < 0x80 then escapeChar quote (Char.ofNat b.toNat)
  else '\\' :: 'x' :: hexDigits 2 b.toNat

def quoteBytes (bytes : List UInt8) : String :=
  let quote := chooseQuote (bytes.map fun b => Char.ofNat b.toNat)
  String.ofList ('b' :: quote :: bytes.flatMap (escapeByte quote) ++ [quote])

end RuleMachine
