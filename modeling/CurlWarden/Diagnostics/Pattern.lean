import CurlWarden.Text.Blank
import CurlWarden.Text.Digit
import CurlWarden.Text.Search

/-!
# Patterns of the diagnostic stream

The shapes of text in which a transfer reports metadata. A pattern is a fixed mark and what must
follow it, part of which is captured; it is searched for from the left. Every run in a pattern is
followed by something that the run cannot hold, so taking each run as long as possible loses no
match.
-/

namespace CurlWarden.Diagnostics

inductive Pattern where
  /-- The status code of a response line, which may stand on the next line. -/
  | status
  /-- The value of a response header of the given name. -/
  | header (name : String)
  /-- The digits of the content length. -/
  | length
  /-- A duration in seconds, with a fraction. -/
  | duration
  /-- The text of an error of the transfer program. -/
  | failure
  deriving DecidableEq, Repr

def isLineEnd (c : Char) : Bool := c == '\r' || c == '\n'

/-- The longest run of characters of a class at the start of a text, and what follows it; nothing
if the run would be empty. -/
def run? (isIn : Char → Bool) (cs : List Char) : Option (List Char × List Char) :=
  let run := cs.takeWhile isIn
  if run.isEmpty then none else some (run, cs.dropWhile isIn)

def lineRest? (cs : List Char) : Option (List Char) := (run? (!isLineEnd ·) cs).map (·.1)

/-- What follows a version number: digits, and perhaps a point and digits. -/
def afterVersion? (cs : List Char) : Option (List Char) :=
  (run? Text.isDigit cs).map fun (_, rest) =>
    match rest with
    | '.' :: more => ((run? Text.isDigit more).map (·.2)).getD rest
    | _ => rest

namespace Pattern

/-- The fixed text with which the pattern starts. -/
def mark : Pattern → List Char
  | .status => "< HTTP/".toList
  | .header name => ("< " ++ name ++ ": ").toList
  | .length => "< Content-Length: ".toList
  | .duration => []
  | .failure => "curl: (".toList

/-- What the pattern captures in the text after its mark. -/
def body? : Pattern → List Char → Option (List Char)
  | .status, cs => do
    let rest ← afterVersion? cs
    let (_, code) ← run? Text.isBlank rest
    (run? Text.isDigit code).map (·.1)
  | .header _, cs => lineRest? cs
  | .length, cs => (run? Text.isDigit cs).map (·.1)
  | .duration, cs => do
    let (whole, rest) ← run? Text.isDigit cs
    let rest ← Text.after? ['.'] rest
    let (fraction, rest) ← run? Text.isDigit rest
    let _ ← Text.after? " secs".toList rest
    some (whole ++ '.' :: fraction)
  | .failure, cs => do
    let (_, rest) ← run? Text.isDigit cs
    let rest ← Text.after? ") ".toList rest
    lineRest? rest

/-- What the pattern captures at the leftmost place where it fits. -/
def search? (pattern : Pattern) (cs : List Char) : Option (List Char) :=
  let mark := pattern.mark
  Text.firstMatch (fun here => (Text.after? mark here).bind pattern.body?) cs

end Pattern

end CurlWarden.Diagnostics
