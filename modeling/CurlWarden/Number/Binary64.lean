/-!
# Binary64 numbers

The 64-bit binary floating-point format as data: a word, what it stands for, and the rounding of an
exact rational to the nearest number of the format. There is no arithmetic of its own: a rounded
sum is the exact sum of the values, rounded.

A finite number is `significand * 2 ^ scale` units of `2 ^ -1074`, so all of its arithmetic is that
of natural numbers.
-/

namespace CurlWarden

/-- A binary64 number, as the word that encodes it. -/
structure Binary64 where
  bits : UInt64
  deriving DecidableEq, Repr, Inhabited

namespace Binary64

/-- The word of the positive infinity: everything above it is no number. -/
def infinityWord : Nat := 2047 * Nat.pow 2 52

/-- The number with the given sign whose word without the sign bit is `word`. -/
def ofWord (negative : Bool) (word : Nat) : Binary64 :=
  ⟨UInt64.ofNat ((if negative then Nat.pow 2 63 else 0) + word)⟩

def zero : Binary64 := ofWord false 0

def infinity (negative : Bool) : Binary64 := ofWord negative infinityWord

def notANumber : Binary64 := ofWord false (infinityWord + Nat.pow 2 51)

/-- Is the sign bit set? -/
def isNegative (x : Binary64) : Bool := Nat.pow 2 63 ≤ x.bits.toNat

/-- The word without its sign bit. -/
def word (x : Binary64) : Nat := x.bits.toNat % Nat.pow 2 63

def isNaN (x : Binary64) : Bool := infinityWord < x.word

def isInfinite (x : Binary64) : Bool := x.word == infinityWord

def isFinite (x : Binary64) : Bool := x.word < infinityWord

def significand (x : Binary64) : Nat :=
  if x.word < Nat.pow 2 52 then x.word else Nat.pow 2 52 + x.word % Nat.pow 2 52

/-- How many times the smallest unit is doubled to give the unit of a finite number. -/
def scale (x : Binary64) : Nat := x.word / Nat.pow 2 52 - 1

/-- The exact value of a finite number, and zero for the others. -/
def toRat (x : Binary64) : Rat :=
  if x.isFinite then
    let magnitude := mkRat (x.significand * Nat.pow 2 x.scale) (Nat.pow 2 1074)
    if x.isNegative then -magnitude else magnitude
  else 0

def isPositive (x : Binary64) : Bool := !x.isNegative && !x.isNaN && x.word != 0

/-- The integer nearest `num / den`, the even one of two equally near. -/
def roundDiv (num den : Nat) : Nat :=
  let quotient := num / den
  let rest := num % den
  if 2 * rest < den then quotient
  else if den < 2 * rest then quotient + 1
  else if quotient % 2 = 0 then quotient else quotient + 1

/-- The number nearest `num / den`, ties to the even significand, and an infinity if the value
lies beyond the largest finite number. The significand may round up to `2 ^ 53`; the sum of the
fields then carries into the exponent, which is the right word. -/
def ofRatio (negative : Bool) (num den : Nat) : Binary64 :=
  let units := num * Nat.pow 2 1074
  let scale := (units / den).log2 - 52
  let word := scale * Nat.pow 2 52 + roundDiv units (den * Nat.pow 2 scale)
  if word < infinityWord then ofWord negative word else infinity negative

def ofRat (q : Rat) : Binary64 := ofRatio (q < 0) q.num.natAbs q.den

/-- The number nearest `mantissa * 10 ^ exponent`. The first two tests settle exponents whose power
of ten would be needlessly large: they are beyond either end of the format. -/
def ofDecimal (negative : Bool) (mantissa : Nat) (exponent : Int) : Binary64 :=
  if mantissa = 0 then ofWord negative 0
  else if 400 < exponent then infinity negative
  else if (mantissa.log2 : Int) + 3 * exponent < -1100 then ofWord negative 0
  else if 0 ≤ exponent then ofRatio negative (mantissa * Nat.pow 10 exponent.toNat) 1
  else ofRatio negative mantissa (Nat.pow 10 (-exponent).toNat)

def ofInt (n : Int) : Binary64 := ofRatio (n < 0) n.natAbs 1

example : ofDecimal false 1 (-1) = ⟨0x3FB999999999999A⟩ := by decide +kernel
example : ofDecimal false 5 (-324) = ⟨1⟩ := by decide +kernel
example : ofDecimal false 2 (-324) = ⟨0⟩ := by decide +kernel
example : ofDecimal true 1 400 = infinity true := by decide +kernel
example : ofDecimal false 17976931348623159 292 = infinity false := by decide +kernel

end Binary64

end CurlWarden
