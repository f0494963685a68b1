import CurlWarden.Text.Search

/-!
# Fenced commands

A command may be embedded in prose as a block fenced by three backticks, whose opening fence
follows the word `curl`, in any case. `embedded` gives the command that a text asks for: the
inside of its leftmost fenced block, or the whole text if it has none.
-/

namespace CurlWarden.Command

/-- The only program that is ever run. -/
def program : String := "curl"

def ticks : List Char := ['\x60', '\x60', '\x60']

/-- What follows an opening fence, in a text that starts with one. -/
def afterOpener? : List Char → Option (List Char)
  | c :: u :: r :: l :: cs =>
    if [c, u, r, l].map Char.toLower = program.toList then Text.after? ticks cs else none
  | _ => none

/-- The inside of the leftmost fenced block. -/
def fenced? (cs : List Char) : Option (List Char) :=
  (Text.firstMatch afterOpener? cs).bind (Text.before? ticks)

def embedded (text : String) : String :=
  match fenced? text.toList with
  | some inside => String.ofList (program.toList ++ ' ' :: inside)
  | none => text

end CurlWarden.Command
