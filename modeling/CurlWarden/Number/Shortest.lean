import CurlWarden.Number.Binary64
import CurlWarden.Text.Digit

/-!
# Decimal digits of a binary64 number

Two choices of digits for a finite positive number: the fewest that read back as the same number,
and a fixed count of significant ones. Both work with exact natural numbers on the grid of decimals
of a given length.
-/

namespace CurlWarden

/-- The decimal `0.d₁d₂… * 10 ^ point`, whose first digit is not zero unless the number is. -/
structure Decimal where
  digits : List Char
  point : Int
  deriving DecidableEq, Repr

namespace Decimal

open Text (decimal)

/-- The exponent of the leading decimal digit of the positive number `num / den`. -/
def leadingExponent (num den : Nat) : Int :=
  if den ≤ num then ((decimal (num / den)).length : Int) - 1
  else -((decimal ((den + num - 1) / num - 1)).length : Int)

/-- `num / den` in units of `10 ^ unit`, as a quotient of natural numbers. -/
def inUnits (num den : Nat) (unit : Int) : Nat × Nat :=
  if 0 ≤ unit then (num, den * Nat.pow 10 unit.toNat) else (num * Nat.pow 10 (-unit).toNat, den)

/-- The decimal `count * 10 ^ unit`, without the zeros that end it. -/
def ofCount (count : Nat) (unit : Int) : Decimal :=
  let digits := decimal count
  ⟨(digits.reverse.dropWhile (· == '0')).reverse, digits.length + unit⟩

/-- The positive number `num / den` rounded to `places` significant digits, ties to even. -/
def rounded (places : Nat) (num den : Nat) : Decimal :=
  let unit := leadingExponent num den - places + 1
  let (top, bottom) := inUnits num den unit
  ofCount (Binary64.roundDiv top bottom) unit

/-- The reals that round to a number: `value / den` with the two bounds over the same `den`, and
whether the bounds themselves belong. -/
structure Interval where
  low : Nat
  value : Nat
  high : Nat
  den : Nat
  closed : Bool
  deriving Repr

/-- The reals that round to the finite positive number `x`, in quarters of its unit. Below a power
of two the neighbour is half as far, and the bounds belong if the significand is even. -/
def interval (x : Binary64) : Interval :=
  let m := x.significand
  let unit := Nat.pow 2 x.scale
  let below := if m == Nat.pow 2 52 && 0 < x.scale then 1 else 2
  ⟨(4 * m - below) * unit, 4 * m * unit, (4 * m + 2) * unit, 4 * Nat.pow 2 1074, m % 2 == 0⟩

def Interval.holds (i : Interval) (count : Nat) (unit : Int) : Bool :=
  let (low, den) := inUnits i.low i.den unit
  let (high, _) := inUnits i.high i.den unit
  let here := count * den
  if i.closed then low ≤ here && here ≤ high else low < here && here < high

/-- The point of the grid of decimals with `places` digits that lies in the interval, the nearer to
the value if both neighbours do, the even one if they are equally near. -/
def Interval.onGrid? (i : Interval) (places : Nat) : Option Decimal :=
  let unit := leadingExponent i.value i.den - places + 1
  let (top, bottom) := inUnits i.value i.den unit
  let under := top / bottom
  let nearest := Binary64.roundDiv top bottom
  if i.holds nearest unit then some (ofCount nearest unit)
  else if i.holds under unit then some (ofCount under unit)
  else if i.holds (under + 1) unit then some (ofCount (under + 1) unit)
  else none

/-- The fewest digits that read back as the finite positive number `x`, and of those the nearest to
it. Seventeen always suffice. -/
def shortest (x : Binary64) : Decimal :=
  let i := interval x
  match (List.range 17).findSome? fun n => i.onGrid? (n + 1) with
  | some d => d
  | none => rounded 17 i.value i.den

example : shortest (Binary64.ofDecimal false 3 (-1)) = ⟨['3'], 0⟩ := by decide +kernel
example : shortest ⟨1⟩ = ⟨['5'], -323⟩ := by decide +kernel
example : rounded 6 1234565 10 = ⟨"123456".toList, 6⟩ := by decide +kernel

end Decimal

/-! ### Laying out digits -/

/-- How a number is written. Positional notation serves when the decimal point falls strictly after
`pointAbove` and at most at `pointMost` digits from the front; otherwise an exponent of at least
two digits follows. `wholeMark` ends a positional number without a fraction. -/
structure NumberFormat where
  pointAbove : Int
  pointMost : Int
  wholeMark : String
  notANumber : String
  infinity : String
  deriving DecidableEq, Repr

namespace NumberFormat

def exponentText (exponent : Int) : List Char :=
  let digits := Text.decimal exponent.natAbs
  'e' :: (if exponent < 0 then '-' else '+') :: (if digits.length < 2 then '0' :: digits else digits)

def layout (format : NumberFormat) (d : Decimal) : List Char :=
  if format.pointAbove < d.point && d.point ≤ format.pointMost then
    let before := d.point.toNat
    if d.point ≤ 0 then
      "0.".toList ++ List.replicate (-d.point).toNat '0' ++ d.digits
    else if d.digits.length ≤ before then
      d.digits ++ List.replicate (before - d.digits.length) '0' ++ format.wholeMark.toList
    else
      d.digits.take before ++ '.' :: d.digits.drop before
  else
    match d.digits with
    | [] => []
    | [lead] => lead :: exponentText (d.point - 1)
    | lead :: more => lead :: '.' :: more ++ exponentText (d.point - 1)

/-- A number in this format, with the digits that `choose` picks for a positive one. -/
def render (format : NumberFormat) (choose : Binary64 → Decimal) (x : Binary64) : List Char :=
  if x.isNaN then format.notANumber.toList
  else
    (if x.isNegative then ['-'] else []) ++
      if x.isInfinite then format.infinity.toList
      else if x.word = 0 then '0' :: format.wholeMark.toList
      else format.layout (choose x)

end NumberFormat

/-- Seconds in a log record: the shortest digits, positional from `0.0001` to below `1e16`, whole
numbers with one zero after the point. -/
def Binary64.fullFormat : NumberFormat := ⟨-4, 16, ".0", "nan", "inf"⟩

/-- Seconds in a message to the caller: at most six digits, positional from `0.0001` to below a
million, whole numbers without a point. -/
def Binary64.briefFormat : NumberFormat := ⟨-4, 6, "", "nan", "inf"⟩

def Binary64.full (x : Binary64) : String :=
  String.ofList (fullFormat.render Decimal.shortest x)

def Binary64.brief (x : Binary64) : String :=
  String.ofList (briefFormat.render
    (fun y => Decimal.rounded 6 (y.significand * Nat.pow 2 y.scale) (Nat.pow 2 1074)) x)

end CurlWarden
