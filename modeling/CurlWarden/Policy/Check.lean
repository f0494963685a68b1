import CurlWarden.Command.Word
import CurlWarden.Policy.Arguments

/-!
# Checking a command text

The whole judgement on a command text: the characters and the length of the raw text come first,
then its words, then its arguments.
-/

namespace CurlWarden.Policy

/-- The characters that a shell would act on. -/
def metacharacters : List Char := "|&;><\x60".toList

def guardText (limits : Limits) (text : String) : Except Violation Unit :=
  if text.toList.any metacharacters.contains then .error ⟨.shellMetacharacter, none⟩
  else if limits.maxCommandLength < text.length then .error ⟨.commandTooLong, none⟩
  else .ok ()

/-- The argument vector of a command text, or why it is not run. -/
def check (limits : Limits) (text : String) : Except Refusal Argv :=
  match guardText limits text with
  | .error v => .error (.violation v)
  | .ok () =>
    match Command.words? (Text.trim text.toList) with
    | none => .error .openQuote
    | some words => (checkWords limits words).mapError .violation

end CurlWarden.Policy
