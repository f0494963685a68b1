/-!
# Searching text from the left

The scanners of this library look for the leftmost place at which something matches. A matcher is
a function on what is left of the text; `firstMatch` tries it at every place in turn.
-/

namespace CurlWarden.Text

/-- What follows `mark` in a text that starts with it. -/
def after? : (mark : List Char) → List Char → Option (List Char)
  | [], cs => some cs
  | _ :: _, [] => none
  | m :: mark, c :: cs => if m = c then after? mark cs else none

/-- The answer of `matcher` at the leftmost place of the text at which it gives one. -/
def firstMatch {α : Type} (matcher : List Char → Option α) : List Char → Option α
  | [] => matcher []
  | c :: cs =>
    match matcher (c :: cs) with
    | some answer => some answer
    | none => firstMatch matcher cs

def occurs (mark cs : List Char) : Bool := (firstMatch (after? mark) cs).isSome

/-- `beforeFrom mark read cs` looks for `mark` in `cs`, where `read` holds what has already been
passed, last character first. -/
def beforeFrom (mark : List Char) : (read : List Char) → List Char → Option (List Char)
  | read, [] => if mark.isEmpty then some read.reverse else none
  | read, c :: cs =>
    if (after? mark (c :: cs)).isSome then some read.reverse else beforeFrom mark (c :: read) cs

/-- The text before the first occurrence of `mark`, or nothing if `mark` does not occur. -/
def before? (mark cs : List Char) : Option (List Char) := beforeFrom mark [] cs

/-- The text up to the first `c`, and what follows that `c`; nothing follows if there is no `c`. -/
def splitAtFirst (c : Char) (cs : List Char) : List Char × List Char :=
  (cs.takeWhile (· != c), (cs.dropWhile (· != c)).drop 1)

/-- What follows the last `c`; the whole text if there is none. -/
def afterLast (c : Char) (cs : List Char) : List Char :=
  (cs.reverse.takeWhile (· != c)).reverse

/-! ### What a match says -/

theorem after?_eq_some_iff {mark cs rest : List Char} :
    after? mark cs = some rest ↔ cs = mark ++ rest := by
  induction mark generalizing cs with
  | nil => simp [after?]
  | cons m mark ih =>
    cases cs with
    | nil => simp [after?]
    | cons c cs =>
      by_cases h : m = c
      · simp [after?, h, ih]
      · simp [after?, h, Ne.symm h]

theorem after?_append (mark rest : List Char) : after? mark (mark ++ rest) = some rest :=
  after?_eq_some_iff.2 rfl

end CurlWarden.Text
