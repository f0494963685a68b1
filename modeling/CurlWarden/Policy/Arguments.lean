import CurlWarden.Command.Fence
import CurlWarden.Flag
import CurlWarden.Policy.Address

/-!
# Acceptable arguments

Turns the words of a command into an argument vector. The words after the program are read in
order: a word that starts with a dash must be an allowed flag, and takes the next word with it if
it takes a value; any other word must be an acceptable URL. Exactly one URL may be given. The first
word at fault is the one reported, and the number of URLs is looked at last.
-/

namespace CurlWarden

structure Argv where
  program : String
  arguments : List String
  deriving DecidableEq, Repr

def Argv.toList (argv : Argv) : List String := argv.program :: argv.arguments

namespace Policy

/-- Does the word stand where a flag is meant? -/
def isFlagWord (word : String) : Bool := word.toList.head? == some '-'

def checkValue (limits : Limits) (flag : Flag) (value : String) : Except Violation Unit :=
  if flag.readsFile value then .error ⟨.fileDataSource, none⟩
  else if flag.carriesHeader && limits.maxHeaderLength < value.length then
    .error ⟨.headerTooLong, none⟩
  else .ok ()

/-- Reads a word that stands for a flag, or says why it may not be used. -/
def checkFlag (word : String) : Except Violation Flag :=
  match Flag.ofSpelling? word with
  | none => .error ⟨.unsupportedFlag, some word⟩
  | some flag => if flag.isDenied then .error ⟨.flagNotAllowed, some word⟩ else .ok flag

/-- Reads the words after the program and counts the URLs among them, `urls` of which stand before
these words. -/
def countUrls (limits : Limits) : (urls : Nat) → List String → Except Violation Nat
  | urls, [] => .ok urls
  | urls, word :: rest =>
    if isFlagWord word then
      match checkFlag word with
      | .error v => .error v
      | .ok flag =>
        if flag.takesValue then
          match rest with
          | [] => .error ⟨.missingFlagValue, some word⟩
          | value :: rest =>
            match checkValue limits flag value with
            | .error v => .error v
            | .ok () => countUrls limits urls rest
        else countUrls limits urls rest
    else
      match checkUrl limits word with
      | .error v => .error v
      | .ok () => countUrls limits (urls + 1) rest

def checkWords (limits : Limits) : List String → Except Violation Argv
  | [] => .error ⟨.emptyCommand, none⟩
  | word :: rest =>
    if word ≠ Command.program then .error ⟨.programMismatch, none⟩
    else
      match countUrls limits 0 rest with
      | .error v => .error v
      | .ok 0 => .error ⟨.missingUrl, none⟩
      | .ok 1 => .ok ⟨word, rest⟩
      | .ok _ => .error ⟨.multipleUrls, none⟩

end Policy

end CurlWarden
