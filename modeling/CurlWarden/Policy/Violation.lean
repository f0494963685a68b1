import CurlWarden.Log

/-!
# Violations

Why a command is refused. A violation has a reason and may show the part of the command that is at
fault; the wording of each reason is fixed.
-/

namespace CurlWarden

inductive Reason where
  | shellMetacharacter
  | commandTooLong
  | emptyCommand
  | programMismatch
  | missingUrl
  | multipleUrls
  | invalidUrl
  | unsupportedScheme
  | urlCredentials
  | urlTooLong
  | flagNotAllowed
  | unsupportedFlag
  | missingFlagValue
  | fileDataSource
  | headerTooLong
  deriving DecidableEq, Repr

namespace Reason

def all : List Reason :=
  [.shellMetacharacter, .commandTooLong, .emptyCommand, .programMismatch, .missingUrl,
   .multipleUrls, .invalidUrl, .unsupportedScheme, .urlCredentials, .urlTooLong, .flagNotAllowed,
   .unsupportedFlag, .missingFlagValue, .fileDataSource, .headerTooLong]

/-- The short name under which the log lists a reason. -/
def label : Reason → String
  | .shellMetacharacter => "SHELL_METACHARACTER"
  | .commandTooLong => "COMMAND_TOO_LONG"
  | .emptyCommand => "EMPTY_COMMAND"
  | .programMismatch => "PROGRAM_MISMATCH"
  | .missingUrl => "MISSING_URL"
  | .multipleUrls => "MULTIPLE_URLS"
  | .invalidUrl => "INVALID_URL"
  | .unsupportedScheme => "UNSUPPORTED_SCHEME"
  | .urlCredentials => "URL_CREDENTIALS"
  | .urlTooLong => "URL_TOO_LONG"
  | .flagNotAllowed => "FLAG_NOT_ALLOWED"
  | .unsupportedFlag => "UNSUPPORTED_FLAG"
  | .missingFlagValue => "MISSING_FLAG_VALUE"
  | .fileDataSource => "FILE_DATA_SOURCE"
  | .headerTooLong => "HEADER_TOO_LONG"

def wording : Reason → String
  | .shellMetacharacter => "Shell metacharacters are not allowed"
  | .commandTooLong => "Command too long"
  | .emptyCommand => "Empty curl command"
  | .programMismatch => "Only curl is allowed"
  | .missingUrl => "URL is required"
  | .multipleUrls => "Multiple URLs are not allowed"
  | .invalidUrl => "Invalid URL"
  | .unsupportedScheme => "Only HTTP/HTTPS URLs are allowed"
  | .urlCredentials => "Credentials in URL are not allowed"
  | .urlTooLong => "URL too long"
  | .flagNotAllowed => "Flag not allowed"
  | .unsupportedFlag => "Unsupported flag"
  | .missingFlagValue => "Flag requires a value"
  | .fileDataSource => "Reading data from files is not allowed"
  | .headerTooLong => "Header value too long"

end Reason

/-- A reason, with the part of the command that shows it. -/
structure Violation where
  reason : Reason
  detail : Option String := none
  deriving DecidableEq, Repr

def Violation.message (v : Violation) : String :=
  match v.detail with
  | none => v.reason.wording ++ "."
  | some detail => v.reason.wording ++ ": " ++ detail

/-- What the log is told; an empty detail is left out. -/
def Violation.record (v : Violation) : Log.Record :=
  let shown := match v.detail with
    | none => ""
    | some detail => if detail.isEmpty then "" else " (" ++ detail ++ ")"
  ⟨.warning, .policy, "Rejected command: " ++ v.reason.label ++ shown, none⟩

/-- Why a command text is not run: a quote is left open, or the policy objects. -/
inductive Refusal where
  | openQuote
  | violation (v : Violation)
  deriving DecidableEq, Repr

namespace Refusal

def message : Refusal → String
  | .openQuote => "Unclosed quote in command"
  | .violation v => v.message

def record : Refusal → Log.Record
  | .openQuote => ⟨.warning, .policy, "Rejected command: unclosed quote", none⟩
  | .violation v => v.record

def kind : Refusal → String
  | .openQuote => "lex"
  | .violation _ => "policy"

/-- The stage that refuses, with the reason if it has one. -/
def label : Refusal → String
  | .openQuote => "lex"
  | .violation v => "policy/" ++ v.reason.label

end Refusal

end CurlWarden
