import CurlWarden.Text.Blank

/-!
# Words of a command

A command is split into words at blanks. Inside single quotes every character stands for itself;
inside double quotes and outside quotes a backslash makes the next character stand for itself. A
backslash that ends the text stands for itself. A word begins with its first character or quote, so
`''` is an empty word and a run of blanks is none.

The splitter is a machine that reads one character at a time; its state holds the word being read,
last character first.
-/

namespace CurlWarden.Command

/-- Where the splitter stands: between words, or in a word whose characters so far are given, last
first, outside quotes or inside one of the two kinds. -/
inductive Position where
  | between
  | bare (word : List Char)
  | single (word : List Char)
  | double (word : List Char)
  deriving DecidableEq, Repr

def Position.word : Position → List Char
  | .between => []
  | .bare word => word
  | .single word => word
  | .double word => word

/-- The words of what is left of a text, the one being read included; none if a quote is still open
at the end. -/
def wordsFrom : Position → List Char → Option (List (List Char))
  | .between, [] => some []
  | .bare word, [] => some [word.reverse]
  | .single _, [] => none
  | .double _, [] => none
  | .single word, c :: cs =>
    if c = '\'' then wordsFrom (.bare word) cs else wordsFrom (.single (c :: word)) cs
  | .double word, '\\' :: c :: cs => wordsFrom (.double (c :: word)) cs
  | .double word, c :: cs =>
    if c = '"' then wordsFrom (.bare word) cs else wordsFrom (.double (c :: word)) cs
  | position, '\'' :: cs => wordsFrom (.single position.word) cs
  | position, '"' :: cs => wordsFrom (.double position.word) cs
  | position, '\\' :: c :: cs => wordsFrom (.bare (c :: position.word)) cs
  | .between, c :: cs =>
    if Text.isBlank c then wordsFrom .between cs else wordsFrom (.bare [c]) cs
  | .bare word, c :: cs =>
    if Text.isBlank c then (wordsFrom .between cs).map (word.reverse :: ·)
    else wordsFrom (.bare (c :: word)) cs

/-- The words of a command, or nothing if a quote is left open. -/
def words? (text : List Char) : Option (List String) :=
  (wordsFrom .between text).map (·.map String.ofList)

example : words? "a 'b c' \"d\\\"e\" ''".toList = some ["a", "b c", "d\"e", ""] := by decide
example : words? "a\\ b \\".toList = some ["a b", "\\"] := by decide
example : words? "a 'b".toList = none := by decide

end CurlWarden.Command
