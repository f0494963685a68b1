import CurlWarden.Json.Value
import CurlWarden.Text.Digit
import CurlWarden.Text.Search

/-!
# Reading JSON

A reader for JSON text that also admits `NaN`, `Infinity` and `-Infinity`. `Value.read` takes the
whole text; each part reader returns what it read and the text that follows.

Two faults are kept apart from malformed text, since a caller may not treat them as "not JSON": a
whole number of too many digits, and nesting that is too deep.
-/

namespace CurlWarden.Json

inductive Malformed where
  | value
  | extraData
  | comma
  | colon
  | propertyName
  | unterminatedText
  | controlCharacter
  | escape
  | unicodeEscape
  | byteOrderMark
  deriving DecidableEq, Repr

def Malformed.message : Malformed → String
  | .value => "Expecting value"
  | .extraData => "Extra data"
  | .comma => "Expecting ',' delimiter"
  | .colon => "Expecting ':' delimiter"
  | .propertyName => "Expecting property name enclosed in double quotes"
  | .unterminatedText => "Unterminated string starting at"
  | .controlCharacter => "Invalid control character at"
  | .escape => "Invalid \\escape"
  | .unicodeEscape => "Invalid \\uXXXX escape"
  | .byteOrderMark => "Unexpected UTF-8 BOM (decode using utf-8-sig)"

inductive Container where
  | array
  | object
  deriving DecidableEq, Repr

inductive ReadError where
  | malformed (why : Malformed)
  | tooManyDigits (count : Nat)
  | tooDeep (container : Container)
  deriving DecidableEq, Repr

/-- What a part reader gives: what it read, and the text after it. -/
abbrev Read (α : Type) := Except ReadError (α × List Char)

def maxDigits : Nat := 4300

/-- The deepest nesting that is read. It stands for the recursion limit that release 3.11 of the
runtime sets by default; the few calls that are in progress when reading starts are not taken off
it. Later releases count on another stack, which allows about ten times as much. -/
def maxDepth : Nat := 1000

def isSpace (c : Char) : Bool := c == ' ' || c == '\t' || c == '\n' || c == '\r'

def skipSpace (cs : List Char) : List Char := cs.dropWhile isSpace

/-! ### Texts -/

/-- The value of four hexadecimal digits. -/
def unit? (a b c d : Char) : Option Nat :=
  match Text.hexValue? a, Text.hexValue? b, Text.hexValue? c, Text.hexValue? d with
  | some a, some b, some c, some d => some (((a * 16 + b) * 16 + c) * 16 + d)
  | _, _, _, _ => none

def isHighSurrogate (unit : Nat) : Bool := 0xD800 ≤ unit && unit < 0xDC00

def isLowSurrogate (unit : Nat) : Bool := 0xDC00 ≤ unit && unit < 0xE000

/-- The code point of a code unit: half of a surrogate pair is none of a character. -/
def ofUnit (unit : Nat) : CodePoint :=
  if h : 0xD800 ≤ unit ∧ unit < 0xE000 then .half ⟨unit - 0xD800, by omega⟩
  else .char (.ofNat unit)

/-- The character that a high surrogate forms with an escape for a low one that follows, and the
text after that. Some text must follow the second escape. -/
def joinSurrogate? (high : Nat) : List Char → Option (CodePoint × List Char)
  | '\\' :: 'u' :: a :: b :: c :: d :: e :: rest =>
    match unit? a b c d with
    | some low =>
      if isLowSurrogate low then
        some (.char (.ofNat (0x10000 + (high - 0xD800) * 0x400 + (low - 0xDC00))), e :: rest)
      else none
    | none => none
  | _ => none

/-- Reads the four digits of an escape by code unit. Some text must follow them. -/
def readUnit : List Char → Read CodePoint
  | a :: b :: c :: d :: e :: rest =>
    match unit? a b c d with
    | none => .error (.malformed .unicodeEscape)
    | some unit =>
      if isHighSurrogate unit then
        match joinSurrogate? unit (e :: rest) with
        | some joined => .ok joined
        | none => .ok (ofUnit unit, e :: rest)
      else .ok (ofUnit unit, e :: rest)
  | _ => .error (.malformed .unicodeEscape)

def readEscape : List Char → Read CodePoint
  | [] => .error (.malformed .unterminatedText)
  | 'u' :: cs => readUnit cs
  | c :: cs =>
    match c with
    | '"' => .ok (.char '"', cs)
    | '\\' => .ok (.char '\\', cs)
    | '/' => .ok (.char '/', cs)
    | 'b' => .ok (.char '\x08', cs)
    | 'f' => .ok (.char '\x0C', cs)
    | 'n' => .ok (.char '\n', cs)
    | 'r' => .ok (.char '\r', cs)
    | 't' => .ok (.char '\t', cs)
    | _ => .error (.malformed .escape)

theorem length_joinSurrogate? {high : Nat} {cs rest : List Char} {c : CodePoint}
    (h : joinSurrogate? high cs = some (c, rest)) : rest.length < cs.length := by
  unfold joinSurrogate? at h
  split at h
  · split at h
    · split at h
      · simp only [Option.some.injEq, Prod.mk.injEq] at h
        simp only [← h.2, List.length_cons]; omega
      · simp at h
    · simp at h
  · simp at h

theorem length_readUnit {cs rest : List Char} {c : CodePoint} (h : readUnit cs = .ok (c, rest)) :
    rest.length < cs.length := by
  unfold readUnit at h
  split at h
  · rename_i a b c' d e more
    split at h
    · simp at h
    · split at h
      · split at h
        · rename_i joined hj
          have hj' : joined = (c, rest) := by simpa using h
          have := length_joinSurrogate? (hj'.symm ▸ hj)
          simp only [List.length_cons] at this ⊢; omega
        · simp only [Except.ok.injEq, Prod.mk.injEq] at h
          simp only [← h.2, List.length_cons]; omega
      · simp only [Except.ok.injEq, Prod.mk.injEq] at h
        simp only [← h.2, List.length_cons]; omega
  · simp at h

/-- An escape takes at least one character. -/
theorem length_readEscape {cs rest : List Char} {c : CodePoint}
    (h : readEscape cs = .ok (c, rest)) : rest.length < cs.length := by
  unfold readEscape at h
  split at h
  · simp at h
  · have := length_readUnit h
    simp only [List.length_cons]; omega
  · split at h <;>
      first
      | (simp only [Except.ok.injEq, Prod.mk.injEq] at h; simp [← h.2])
      | simp at h

/-- Reads a text after its opening quote, where `read` holds its code points so far, last first. -/
def readText (read : CodePoints) : (cs : List Char) → Read CodePoints
  | [] => .error (.malformed .unterminatedText)
  | '"' :: cs => .ok (read.reverse, cs)
  | '\\' :: cs =>
    match _h : readEscape cs with
    | .ok (c, rest) => readText (c :: read) rest
    | .error e => .error e
  | c :: cs =>
    if c.toNat ≤ 0x1F then .error (.malformed .controlCharacter) else readText (.char c :: read) cs
termination_by cs => cs.length
decreasing_by
  · have := length_readEscape _h
    simp only [List.length_cons]; omega
  · simp

/-! ### Numbers -/

/-- The exponent at the start of a text, with its sign, and what follows; a mark without digits is
no exponent. -/
def exponent? : List Char → Option (Int × List Char)
  | mark :: cs =>
    if mark == 'e' || mark == 'E' then
      let (negative, cs) := match cs with
        | '-' :: cs => (true, cs)
        | '+' :: cs => (false, cs)
        | cs => (false, cs)
      let digits := cs.takeWhile Text.isAsciiDigit
      if digits.isEmpty then none
      else
        let size : Int := Text.digitsValue digits
        some (if negative then -size else size, cs.dropWhile Text.isAsciiDigit)
    else none
  | [] => none

/-- The digits after a decimal point at the start of a text, and what follows; a point without
digits is no fraction. -/
def fraction? : List Char → Option (List Char × List Char)
  | '.' :: cs =>
    let digits := cs.takeWhile Text.isAsciiDigit
    if digits.isEmpty then none else some (digits, cs.dropWhile Text.isAsciiDigit)
  | _ => none

/-- The whole part of a number, a single zero or digits that do not start with zero, and what
follows. -/
def wholePart? : List Char → Option (List Char × List Char)
  | '0' :: cs => some (['0'], cs)
  | cs =>
    let digits := cs.takeWhile Text.isAsciiDigit
    if digits.isEmpty then none else some (digits, cs.dropWhile Text.isAsciiDigit)

def wholeNumber (negative : Bool) (digits : List Char) : Except ReadError Value :=
  if maxDigits < digits.length then .error (.tooManyDigits digits.length)
  else
    let size : Int := Text.digitsValue digits
    .ok (.int (if negative then -size else size))

/-- Reads the digits of a number after its sign. -/
def readDigits (negative : Bool) (cs : List Char) : Read Value :=
  match wholePart? cs with
  | none => .error (.malformed .value)
  | some (whole, cs) =>
    match fraction? cs, exponent? ((fraction? cs).elim cs (·.2)) with
    | none, none => (wholeNumber negative whole).map (·, cs)
    | fraction, exponent =>
      let digits := fraction.elim [] (·.1)
      let shift := exponent.elim 0 (·.1) - digits.length
      let rest := exponent.elim (fraction.elim cs (·.2)) (·.2)
      .ok (.float (.ofDecimal negative (Text.digitsValue (whole ++ digits)) shift), rest)

def readNumber : List Char → Read Value
  | '-' :: cs => readDigits true cs
  | cs => readDigits false cs

/-! ### Values -/

def words : List (String × Value) :=
  [("null", .null), ("true", .bool true), ("false", .bool false), ("NaN", .float .notANumber),
   ("Infinity", .float (.infinity false)), ("-Infinity", .float (.infinity true))]

def readScalar (cs : List Char) : Read Value :=
  match words.findSome? fun (word, v) => (Text.after? word.toList cs).map (v, ·) with
  | some read => .ok read
  | none => readNumber cs

/-- Reads the items of an array after its opening bracket, where `read` holds those before, last
first. Each item takes at least a character, so `fuel` may be the length of the text. -/
def readItems (item : List Char → Read Value) :
    (fuel : Nat) → (read : List Value) → List Char → Read Value
  | 0, _, _ => .error (.malformed .value)
  | fuel + 1, read, cs =>
    match item cs with
    | .error e => .error e
    | .ok (v, rest) =>
      match skipSpace rest with
      | ']' :: rest => .ok (.list (v :: read).reverse, rest)
      | ',' :: rest => readItems item fuel (v :: read) (skipSpace rest)
      | _ => .error (.malformed .comma)

/-- Reads the members of an object from the first key on, where `read` holds those before, last
first. A repeated key keeps its first place and takes its last value. -/
def readMembers (item : List Char → Read Value) :
    (fuel : Nat) → (read : List (CodePoints × Value)) → List Char → Read Value
  | 0, _, _ => .error (.malformed .value)
  | fuel + 1, read, cs =>
    match cs with
    | '"' :: cs =>
      match readText [] cs with
      | .error e => .error e
      | .ok (key, rest) =>
        match skipSpace rest with
        | ':' :: rest =>
          match item (skipSpace rest) with
          | .error e => .error e
          | .ok (v, rest) =>
            match skipSpace rest with
            | '}' :: rest => .ok (.object (assignAll ((key, v) :: read).reverse), rest)
            | ',' :: rest => readMembers item fuel ((key, v) :: read) (skipSpace rest)
            | _ => .error (.malformed .comma)
        | _ => .error (.malformed .colon)
    | _ => .error (.malformed .propertyName)

/-- Reads a value nested at most `depth` deep. -/
def readValue (fuel : Nat) : (depth : Nat) → List Char → Read Value
  | _, '"' :: cs => (readText [] cs).map fun (t, rest) => (.text t, rest)
  | 0, '[' :: _ => .error (.tooDeep .array)
  | 0, '{' :: _ => .error (.tooDeep .object)
  | depth + 1, '[' :: cs =>
    match skipSpace cs with
    | ']' :: rest => .ok (.list [], rest)
    | cs => readItems (readValue fuel depth) fuel [] cs
  | depth + 1, '{' :: cs =>
    match skipSpace cs with
    | '}' :: rest => .ok (.object [], rest)
    | cs => readMembers (readValue fuel depth) fuel [] cs
  | _, cs => readScalar cs

/-- Reads a text that holds one value and nothing else but white space. -/
def Value.read (cs : List Char) : Except ReadError Value :=
  match cs with
  | '\uFEFF' :: _ => .error (.malformed .byteOrderMark)
  | _ =>
    match readValue cs.length maxDepth (skipSpace cs) with
    | .error e => .error e
    | .ok (v, rest) =>
      if (skipSpace rest).isEmpty then .ok v else .error (.malformed .extraData)

end CurlWarden.Json
