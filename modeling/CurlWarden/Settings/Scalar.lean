import CurlWarden.Literal
import CurlWarden.Text.Blank
import CurlWarden.Text.Digit
import CurlWarden.Text.Search

/-!
# Values of settings

A setting is given as a text or as another literal, and read as what it is to be: a number, a whole
number, a truth value or a text. Texts of numbers may have blanks around them and single
underscores between digits; only ASCII digits count.
-/

namespace CurlWarden.Settings

inductive Cause where
  | notPositive
  | belowOne
  | numberText
  | numberKind
  | integerText
  | integerKind
  | integerFraction
  | integerInfinite
  | truthText
  | truthKind
  | textKind
  | pathKind
  | unknown
  deriving DecidableEq, Repr

def Cause.kind : Cause → String
  | .notPositive => "greater_than"
  | .belowOne => "greater_than_equal"
  | .numberText => "float_parsing"
  | .numberKind => "float_type"
  | .integerText => "int_parsing"
  | .integerKind => "int_type"
  | .integerFraction => "int_from_float"
  | .integerInfinite => "finite_number"
  | .truthText => "bool_parsing"
  | .truthKind => "bool_type"
  | .textKind => "string_type"
  | .pathKind => "path_type"
  | .unknown => "extra_forbidden"

def Cause.message : Cause → String
  | .notPositive => "Input should be greater than 0"
  | .belowOne => "Input should be greater than or equal to 1"
  | .numberText => "Input should be a valid number, unable to parse string as a number"
  | .numberKind => "Input should be a valid number"
  | .integerText => "Input should be a valid integer, unable to parse string as an integer"
  | .integerKind => "Input should be a valid integer"
  | .integerFraction => "Input should be a valid integer, got a number with a fractional part"
  | .integerInfinite => "Input should be a finite number"
  | .truthText => "Input should be a valid boolean, unable to interpret input"
  | .truthKind => "Input should be a valid boolean"
  | .textKind => "Input should be a valid string"
  | .pathKind => "Input is not a valid path"
  | .unknown => "Extra inputs are not permitted"

/-! ### Texts of numbers -/

/-- Blanks that may stand around a number: all but the four separator controls. -/
def isMargin (c : Char) : Bool := Text.isBlank c && !(28 ≤ c.toNat && c.toNat ≤ 31)

def withoutMargins (cs : List Char) : List Char :=
  ((cs.dropWhile isMargin).reverse.dropWhile isMargin).reverse

/-- The digits at the start of a text, single underscores between them left out, and what follows;
`afterDigit` tells whether a digit comes right before the text. -/
def readDigits : (afterDigit : Bool) → List Char → List Char × List Char
  | _, [] => ([], [])
  | true, ['_'] => ([], ['_'])
  | true, '_' :: d :: rest =>
    if Text.isAsciiDigit d then
      let (digits, rest) := readDigits true rest
      (d :: digits, rest)
    else ([], '_' :: d :: rest)
  | _, d :: rest =>
    if Text.isAsciiDigit d then
      let (digits, rest) := readDigits true rest
      (d :: digits, rest)
    else ([], d :: rest)

/-- The sign at the start of a text, and what follows: is it negative? -/
def readSign : List Char → Bool × List Char
  | '-' :: cs => (true, cs)
  | '+' :: cs => (false, cs)
  | cs => (false, cs)

def signed (negative : Bool) (size : Nat) : Int := if negative then -size else size

/-- The whole number that a text writes; a fraction of zeros only is allowed. -/
def integerOfText? (s : String) : Option Int :=
  let (negative, cs) := readSign (withoutMargins s.toList)
  let (digits, rest) := readDigits false cs
  let isWhole := match rest with
    | [] => true
    | '.' :: zeros => !zeros.isEmpty && zeros.all (· == '0')
    | _ => false
  if digits.isEmpty || !isWhole then none else some (signed negative (Text.digitsValue digits))

/-- The power of ten at the end of a number: zero if there is nothing, absent if it is malformed. -/
def exponentOfText? : List Char → Option Int
  | [] => some 0
  | mark :: cs =>
    let (negative, cs) := readSign cs
    let (digits, rest) := readDigits false cs
    if (mark == 'e' || mark == 'E') && !digits.isEmpty && rest.isEmpty then
      some (signed negative (Text.digitsValue digits))
    else none

/-- The number that unsigned digits write, with a point or an exponent or neither. -/
def unsignedOfText? (negative : Bool) (cs : List Char) : Option Binary64 :=
  let (whole, rest) := readDigits false cs
  let (fraction, rest) := match rest with
    | '.' :: rest => readDigits false rest
    | rest => ([], rest)
  let digits := whole ++ fraction
  if digits.isEmpty then none
  else
    (exponentOfText? rest).map fun exponent =>
      .ofDecimal negative (Text.digitsValue digits) (exponent - fraction.length)

/-- The number that a text writes, which may be infinite or none at all. -/
def numberOfText? (s : String) : Option Binary64 :=
  let (negative, cs) := readSign (withoutMargins s.toList)
  let word := String.ofList (cs.map Char.toLower)
  if word = "inf" || word = "infinity" then some (.infinity negative)
  else if word = "nan" then some .notANumber
  else unsignedOfText? negative cs

def yes : List String := ["1", "true", "t", "yes", "y", "on"]

def no : List String := ["0", "false", "f", "no", "n", "off"]

def truthOfText? (s : String) : Option Bool :=
  let word := String.ofList (s.toList.map Char.toLower)
  if yes.contains word then some true else if no.contains word then some false else none

/-! ### Values -/

def readNumber : Literal → Except Cause Binary64
  | .int n => .ok (.ofInt n)
  | .float x => .ok x
  | .bool b => .ok (.ofInt b.toInt)
  | .text s => (numberOfText? s).elim (.error .numberText) .ok
  | _ => .error .numberKind

/-- The whole number that a number stands for. -/
def integerOfFloat (x : Binary64) : Except Cause Int :=
  if !x.isFinite then .error .integerInfinite
  else if x.toRat.den = 1 then .ok x.toRat.num
  else .error .integerFraction

def readInteger : Literal → Except Cause Int
  | .int n => .ok n
  | .float x => integerOfFloat x
  | .bool b => .ok b.toInt
  | .text s => (integerOfText? s).elim (.error .integerText) .ok
  | _ => .error .integerKind

def readTruth : Literal → Except Cause Bool
  | .bool b => .ok b
  | .int 0 => .ok false
  | .int 1 => .ok true
  | .int _ => .error .truthText
  | .float x =>
    match integerOfFloat x with
    | .ok 0 => .ok false
    | .ok 1 => .ok true
    | .ok _ => .error .truthText
    | .error _ => .error .truthKind
  | .text s => (truthOfText? s).elim (.error .truthText) .ok
  | _ => .error .truthKind

example : integerOfText? "  1_0.00 " = some 10 := by decide +kernel
example : integerOfText? "1." = none := by decide +kernel
example : integerOfText? "1__0" = none := by decide +kernel
example : numberOfText? "+.5" = some ⟨0x3FE0000000000000⟩ := by decide +kernel
example : numberOfText? "1_" = none := by decide +kernel

end CurlWarden.Settings
