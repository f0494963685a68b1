import CurlWarden.Text.Digit
import CurlWarden.Text.Printable

/-!
# Quoted texts

Texts as they are listed in log records and tool descriptions: in single quotes, or in double
quotes if that saves an escape, with everything unprintable escaped by its code point.
-/

namespace CurlWarden.Text

/-- The quote that a text is given: double quotes only if it holds a single one and no double. -/
def quoteFor (cs : List Char) : Char :=
  if cs.contains '\'' && !cs.contains '"' then '"' else '\''

/-- A character as it stands between two `quote`s. -/
def quotedChar (quote c : Char) : List Char :=
  if c == quote || c == '\\' then ['\\', c]
  else if c == '\n' then ['\\', 'n']
  else if c == '\r' then ['\\', 'r']
  else if c == '\t' then ['\\', 't']
  else if isPrintable c then [c]
  else if c.toNat < 0x100 then '\\' :: 'x' :: hex 2 c.toNat
  else if c.toNat < 0x10000 then '\\' :: 'u' :: hex 4 c.toNat
  else '\\' :: 'U' :: hex 8 c.toNat

def quoted (s : String) : String :=
  let quote := quoteFor s.toList
  String.ofList (quote :: s.toList.flatMap (quotedChar quote) ++ [quote])

def quotedList (ss : List String) : String := "[" ++ ", ".intercalate (ss.map quoted) ++ "]"

example : quotedList ["a", "it's", "\"'"] = "['a', \"it's\", '\"\\'']" := by decide +kernel

end CurlWarden.Text
