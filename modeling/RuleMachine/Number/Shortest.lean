import RuleMachine.Number.Binary64

/-!
# The shortest decimal that reads back

A double is written with the fewest decimal digits that read back as the same double,
and, of the decimals with that many digits, with the one nearest to it. The reals that
read back as a double form an interval around it, its ends included exactly when the
significand is even; `Binary64.shortest` looks for a decimal in that interval on ever
finer grids, one digit more each time. On each grid only the two neighbours of the value
can be nearest, and all comparisons are of natural numbers.

The layout (`Binary64.text`) is positional while the decimal exponent lies in `-4 … 15`,
with `.0` after a whole number, and scientific otherwise, with a signed exponent of at
least two digits.
-/

namespace RuleMachine

/-- A positive decimal: the digits of its significand, the first of which is not zero, and the
exponent of ten that the first digit stands for. -/
structure Decimal where
  digits : List Char
  exponent : Int
deriving DecidableEq, Repr

namespace Decimal

/-- The decimal `significand * 10 ^ position`, without the zeros at the end of its digits. -/
def ofSignificand (significand : Nat) (position : Int) : Decimal :=
  let all := (toString significand).toList
  { digits := (all.reverse.dropWhile (· == '0')).reverse
    exponent := position + all.length - 1 }

/-- The layout of a decimal: positional for exponents from `-4` to `15`, scientific beyond. -/
def text (d : Decimal) : String :=
  if d.exponent < -4 ∨ 16 ≤ d.exponent then
    let significand :=
      match d.digits with
      | [] => ['0']
      | [c] => [c]
      | c :: rest => c :: '.' :: rest
    let size := toString d.exponent.natAbs
    let sign := if d.exponent < 0 then "-" else "+"
    let padding := if size.length < 2 then "0" else ""
    String.ofList significand ++ "e" ++ sign ++ padding ++ size
  else if d.exponent < 0 then
    let zeros := List.replicate (d.exponent.natAbs - 1) '0'
    "0." ++ String.ofList (zeros ++ d.digits)
  else
    let places := d.exponent.toNat + 1
    let whole := d.digits.take places ++ List.replicate (places - d.digits.length) '0'
    let fraction := d.digits.drop places
    String.ofList whole ++ "." ++ (if fraction.isEmpty then "0" else String.ofList fraction)

end Decimal

namespace Binary64

/-! ## The interval that reads back -/

/-- The reals that round to one double, in quarters of a unit: the double itself, the two ends,
and whether the ends belong to it. -/
structure Interval where
  low : Nat
  value : Nat
  high : Nat
  closed : Bool
deriving Repr

/-- The interval of a positive magnitude. The gap below a power of two is half as wide as the one
above it, except where doubles already stand one unit apart. -/
def interval (units : Nat) : Interval :=
  let shift := bitLength units - 53
  let significand := units / Nat.pow 2 shift
  let step := Nat.pow 2 shift
  let below := if significand = Nat.pow 2 52 ∧ 0 < shift then step else 2 * step
  { low := 4 * units - below
    value := 4 * units
    high := 4 * units + 2 * step
    closed := significand % 2 == 0 }

/-- Whether the fraction `num / den` of a quarter unit lies in the interval. -/
def Interval.contains (i : Interval) (num den : Nat) : Bool :=
  if i.closed then i.low * den ≤ num && num ≤ i.high * den
  else i.low * den < num && num < i.high * den

/-! ## The grids -/

/-- The exponent of ten of the first decimal digit of a positive magnitude. Every magnitude is at
least `10 ^ -400`, so that a whole number of that size shows how many digits there are. -/
def leadingExponent (units : Nat) : Int :=
  ((toString (units * Nat.pow 10 400 / unitsPerOne)).length : Int) - 401

/-- The nearest decimal that reads back among those whose last digit stands for
`10 ^ position`, if there is one. A tie goes to the even significand. -/
def onGrid? (i : Interval) (position : Int) : Option Nat :=
  -- a grid step and a quarter unit, both as natural numbers over one denominator
  let step := 4 * unitsPerOne * Nat.pow 10 position.toNat
  let quarter := Nat.pow 10 (-position).toNat
  let lower := i.value * quarter / step
  let upper := lower + 1
  let belowFits := i.contains (lower * step) quarter
  let aboveFits := i.contains (upper * step) quarter
  if belowFits && aboveFits then
    let below := i.value * quarter - lower * step
    let above := upper * step - i.value * quarter
    if below < above then some lower
    else if above < below then some upper
    else if lower % 2 = 0 then some lower else some upper
  else if belowFits then some lower
  else if aboveFits then some upper
  else none

/-- Looks at the grids with `digits`, `digits + 1`, … digits, at most `left` of them, for the first
that holds a decimal which reads back. -/
def search (i : Interval) (leading : Int) : (left digits : Nat) → Option Decimal
  | 0, _ => none
  | left + 1, digits =>
    let position := leading - digits + 1
    match onGrid? i position with
    | some significand => some (Decimal.ofSignificand significand position)
    | none => search i leading left (digits + 1)

/-- The shortest decimal that reads back as a positive magnitude. Seventeen digits tell all doubles
apart, so the search never fails. -/
def shortest (units : Nat) : Decimal :=
  (search (interval units) (leadingExponent units) 17 1).getD ⟨['0'], 0⟩

/-! ## The text of a double -/

/-- The text of a double, which reads back as the same double. -/
def text (x : Binary64) : String :=
  let sign := if x.isNegative then "-" else ""
  match x with
  | infinite _ => sign ++ "inf"
  | finite _ 0 => sign ++ "0.0"
  | finite _ units => sign ++ (shortest units).text

end Binary64

end RuleMachine
