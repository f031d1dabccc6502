/-!
# Binary floating-point numbers of double precision

A finite double is a whole number of units of `2 ^ -1074`, the smallest positive
one, so a value is stored exactly as a sign and a natural number and every
comparison is one of integers. Not every natural number is the magnitude of a
double: `Binary64.ofQuotient` rounds a quotient to the nearest magnitude that is,
a tie going to the even significand, and `Binary64.ofDecimal` reads a decimal
through it.

NaN is left out: a NaN is equal to nothing but itself as an object, so it is a kind
of value of its own and no number.
-/

namespace RuleMachine

/-- A double that is a number: finite, counted in units of `2 ^ -1074`, or infinite.
The sign is kept apart from the magnitude because zero has two signs. -/
inductive Binary64 where
  | finite (negative : Bool) (units : Nat)
  | infinite (negative : Bool)
deriving DecidableEq, Repr, Inhabited

/-- A point of the extended line of numbers: a signed count of units of `2 ^ -1074`, or beyond
all of them. Doubles and integers are both points of it, so they compare exactly. -/
inductive Quantity where
  | below
  | units (n : Int)
  | above
deriving DecidableEq, Repr

namespace Binary64

/-! ## The values -/

def unitsPerOne : Nat := Nat.pow 2 1074

/-- The least magnitude, in units, that is too large for a finite double. -/
def overflow : Nat := Nat.pow 2 2098

def isNegative : Binary64 → Bool
  | finite negative _ => negative
  | infinite negative => negative

def isZero : Binary64 → Bool
  | finite _ units => units == 0
  | infinite _ => false

/-- The exact position of a double on the line of numbers. -/
def quantity : Binary64 → Quantity
  | finite negative units => .units (if negative then -(units : Int) else units)
  | infinite negative => if negative then .below else .above

/-! ## Rounding -/

/-- The whole number nearest to `num / den`; a tie goes to the even neighbour. -/
def roundHalfEven (num den : Nat) : Nat :=
  let q := num / den
  let r := num % den
  if 2 * r < den then q
  else if den < 2 * r then q + 1
  else if q % 2 = 0 then q else q + 1

/-- The number of binary digits of `n`; zero has none. -/
def bitLength (n : Nat) : Nat := if n = 0 then 0 else Nat.log2 n + 1

/-- The magnitude of a double nearest to `num / den` units, before the check for overflow:
the quotient is rounded to 53 binary digits, or to a whole unit where it has fewer. -/
def roundUnits (num den : Nat) : Nat :=
  let shift := bitLength (num / den) - 53
  roundHalfEven num (den * Nat.pow 2 shift) * Nat.pow 2 shift

def ofQuotient (negative : Bool) (num den : Nat) : Binary64 :=
  let units := roundUnits num den
  if overflow ≤ units then infinite negative else finite negative units

/-- The double nearest to `significand * 10 ^ exponent`, given how many digits the significand
was written with. Decimals far outside the range of doubles are settled by their size alone, so
that no power of ten is computed for them. -/
def ofDecimal (negative : Bool) (significand digits : Nat) (exponent : Int) : Binary64 :=
  if significand = 0 then finite negative 0
  else if 400 < exponent then infinite negative
  else if exponent + digits < -400 then finite negative 0
  else if 0 ≤ exponent then
    ofQuotient negative (significand * Nat.pow 10 exponent.toNat * unitsPerOne) 1
  else
    ofQuotient negative (significand * unitsPerOne) (Nat.pow 10 (-exponent).toNat)

end Binary64

namespace Quantity

def ofInt (i : Int) : Quantity := .units (i * Binary64.unitsPerOne)

def lt : Quantity → Quantity → Bool
  | .below, .below => false
  | .below, _ => true
  | .units _, .below => false
  | .units m, .units n => m < n
  | .units _, .above => true
  | .above, _ => false

end Quantity

/-! ## Reading -/

/-- What a numeral stands for. -/
inductive Numeral where
  | number (x : Binary64)
  | nan
deriving DecidableEq, Repr

namespace Numeral

/-- A run of decimal digits, which may be parted by single underscores, as its digits' values,
and the characters after it. -/
def digitRun : List Char → List Nat × List Char
  | c :: '_' :: d :: rest =>
    if c.isDigit then
      if d.isDigit then
        let (ds, after) := digitRun (d :: rest)
        ((c.toNat - '0'.toNat) :: ds, after)
      else ([c.toNat - '0'.toNat], '_' :: d :: rest)
    else ([], c :: '_' :: d :: rest)
  | c :: rest =>
    if c.isDigit then
      let (ds, after) := digitRun rest
      ((c.toNat - '0'.toNat) :: ds, after)
    else ([], c :: rest)
  | [] => ([], [])

/-- The natural number that a list of decimal digits writes. -/
def ofDigits (digits : List Nat) : Nat := digits.foldl (fun n d => 10 * n + d) 0

/-- An optional sign: whether it is a minus, and the characters after it. -/
def signed : List Char → Bool × List Char
  | '-' :: rest => (true, rest)
  | '+' :: rest => (false, rest)
  | rest => (false, rest)

/-- An optional exponent, `e` or `E` with a signed run of digits, that ends the text. -/
def exponent? : List Char → Option Int
  | [] => some 0
  | c :: rest =>
    if c = 'e' ∨ c = 'E' then
      let (negative, body) := signed rest
      match digitRun body with
      | ([], _) => none
      | (ds, []) => some (if negative then -(ofDigits ds : Int) else ofDigits ds)
      | (_, _ :: _) => none
    else none

/-- A decimal without its sign: digits around an optional point, at least one of them, and an
optional exponent. -/
def decimal? (negative : Bool) (cs : List Char) : Option Binary64 :=
  let (whole, afterWhole) := digitRun cs
  let (fraction, afterFraction) :=
    match afterWhole with
    | '.' :: rest => digitRun rest
    | rest => ([], rest)
  let digits := whole ++ fraction
  if digits.isEmpty then none
  else
    (exponent? afterFraction).map fun e =>
      Binary64.ofDecimal negative (ofDigits digits) digits.length (e - fraction.length)

/-- Reads a numeral: a signed decimal, or one of the words for infinity and NaN in any case. -/
def ofText? (s : String) : Option Numeral :=
  let (negative, body) := signed s.trimAscii.toString.toList
  let word := String.ofList (body.map Char.toLower)
  if word = "inf" ∨ word = "infinity" then some (.number (.infinite negative))
  else if word = "nan" then some .nan
  else (decimal? negative body).map .number

end Numeral

end RuleMachine
