import CurlWarden.Number.Shortest
import CurlWarden.Text.Quoted

/-!
# Literals

Values as a program writes them down: settings that it gives, and defaults of arguments. The
description of a tool shows them. A text is shown as it is, but in quotes inside a list or an
object; truth values are capitalised, and no value is `None`.
-/

namespace CurlWarden

inductive Literal where
  | null
  | bool (b : Bool)
  | int (n : Int)
  | float (x : Binary64)
  | text (s : String)
  | list (items : List Literal)
  | object (members : List (String × Literal))
  /-- An object of another kind, which is shown in one way by itself and in one inside others. -/
  | other (shown inside : String)
  deriving Repr, BEq, Inhabited

namespace Literal

mutual

/-- A literal as it stands inside a list or an object. -/
def inside : Literal → String
  | .null => "None"
  | .bool true => "True"
  | .bool false => "False"
  | .int n => toString n
  | .float x => x.full
  | .text s => Text.quoted s
  | .list ls => "[" ++ ", ".intercalate (items ls) ++ "]"
  | .object ms => "\x7b" ++ ", ".intercalate (members ms) ++ "\x7d"
  | .other _ inside => inside

def items : List Literal → List String
  | [] => []
  | l :: ls => l.inside :: items ls

def members : List (String × Literal) → List String
  | [] => []
  | (key, l) :: ms => (Text.quoted key ++ ": " ++ l.inside) :: members ms

end

/-- A literal as it stands by itself. -/
def shown : Literal → String
  | .text s => s
  | .other shown _ => shown
  | l => l.inside

example : shown (.list [.text "a", .int (-1), .bool true, .null]) = "['a', -1, True, None]" := by
  decide +kernel
example : shown (.object [("k", .text "it's"), ("x", .float ⟨0x3FF8000000000000⟩)]) =
    "\x7b'k': \"it's\", 'x': 1.5\x7d" := by
  decide +kernel

end Literal

end CurlWarden
