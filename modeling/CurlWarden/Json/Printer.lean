import CurlWarden.Json.Value
import CurlWarden.Number.Shortest

/-!
# Printing JSON

Two layouts of one printer: over several lines with two spaces for each level and every printable
character kept, and on one line with everything beyond ASCII escaped.
-/

namespace CurlWarden.Json

structure Layout where
  /-- Escape every character outside the printable ASCII ones? -/
  asciiOnly : Bool
  /-- Begin a line for each item, indented by two spaces a level? -/
  multiline : Bool
  deriving DecidableEq, Repr

/-- Over several lines, with non-ASCII characters kept. -/
def Layout.indented : Layout := ⟨false, true⟩

/-- On one line, in ASCII. -/
def Layout.compact : Layout := ⟨true, false⟩

/-- Numbers that are not whole, positional from `0.0001` to below `1e16`. -/
def floatFormat : NumberFormat := ⟨-4, 16, ".0", "NaN", "Infinity"⟩

def unitEscape (unit : Nat) : List Char := '\\' :: 'u' :: Text.hex 4 unit

/-- The escape of a character by one or two code units. -/
def charEscape (c : Char) : List Char :=
  let n := c.toNat
  if n < 0x10000 then unitEscape n
  else unitEscape (0xD800 + (n - 0x10000) / 0x400) ++ unitEscape (0xDC00 + (n - 0x10000) % 0x400)

/-- A character as it stands inside quotes. -/
def printChar (layout : Layout) (c : Char) : List Char :=
  match c with
  | '"' => ['\\', '"']
  | '\\' => ['\\', '\\']
  | '\n' => ['\\', 'n']
  | '\r' => ['\\', 'r']
  | '\t' => ['\\', 't']
  | '\x08' => ['\\', 'b']
  | '\x0C' => ['\\', 'f']
  | c =>
    if c.toNat < 0x20 || (layout.asciiOnly && 0x7E < c.toNat) then charEscape c else [c]

/-- A code point as it stands inside quotes. A half is escaped, as it is no character. -/
def printPoint (layout : Layout) : CodePoint → List Char
  | .char c => printChar layout c
  | .half offset => unitEscape (0xD800 + offset)

def printText (layout : Layout) (t : CodePoints) : List Char :=
  '"' :: t.flatMap (printPoint layout) ++ ['"']

/-- The start of an item or of the closing bracket at the given level. -/
def Layout.newline (layout : Layout) (level : Nat) : List Char :=
  if layout.multiline then '\n' :: List.replicate (2 * level) ' ' else []

/-- What stands between an item and the next at the given level. -/
def Layout.separator (layout : Layout) (level : Nat) : List Char :=
  if layout.multiline then ',' :: layout.newline level else [',', ' ']

def printFloat (x : Binary64) : List Char := floatFormat.render Decimal.shortest x

def printInt (n : Int) : List Char :=
  if n < 0 then '-' :: Text.decimal n.natAbs else Text.decimal n.natAbs

mutual

/-- A value whose first character stands at the given level. -/
def Value.printAt (layout : Layout) (level : Nat) : Value → List Char
  | .null => "null".toList
  | .bool true => "true".toList
  | .bool false => "false".toList
  | .int n => printInt n
  | .float x => printFloat x
  | .text t => printText layout t
  | .list [] => "[]".toList
  | .list (v :: vs) =>
    '[' :: layout.newline (level + 1) ++ v.printAt layout (level + 1) ++
      printItems layout (level + 1) vs ++ layout.newline level ++ [']']
  | .object [] => "\x7b\x7d".toList
  | .object ((key, v) :: ms) =>
    '\x7b' :: layout.newline (level + 1) ++ printText layout key ++ [':', ' '] ++
      v.printAt layout (level + 1) ++ printMembers layout (level + 1) ms ++
      layout.newline level ++ ['\x7d']

def printItems (layout : Layout) (level : Nat) : List Value → List Char
  | [] => []
  | v :: vs => layout.separator level ++ v.printAt layout level ++ printItems layout level vs

def printMembers (layout : Layout) (level : Nat) : List (CodePoints × Value) → List Char
  | [] => []
  | (key, v) :: ms =>
    layout.separator level ++ printText layout key ++ [':', ' '] ++ v.printAt layout level ++
      printMembers layout level ms

end

/-- A value in the given layout, with halves of surrogate pairs escaped. -/
def Value.print (layout : Layout) (v : Value) : List Char := v.printAt layout 0

/-- A value in the given layout. One that keeps characters as they are would keep halves of
surrogate pairs as well, and they cannot be encoded. -/
def Value.print? (layout : Layout) (v : Value) : Option (List Char) :=
  if layout.asciiOnly || v.isWhole then some (v.print layout) else none

end CurlWarden.Json
