/-!
# Log records

What the parts of the program report while they work. A record is a value that its part computes
along with its result; only the outermost layer writes records anywhere.
-/

namespace CurlWarden.Log

inductive Level where
  | debug
  | info
  | warning
  | error
  deriving DecidableEq, Repr

def Level.rank : Level → Nat
  | .debug => 0
  | .info => 1
  | .warning => 2
  | .error => 3

def Level.name : Level → String
  | .debug => "DEBUG"
  | .info => "INFO"
  | .warning => "WARNING"
  | .error => "ERROR"

/-- The part of the program that reports. -/
inductive Channel where
  | policy
  | executor
  | diagnostics
  | response
  | pipeline
  | makeRequest
  | registry
  | terminal
  deriving DecidableEq, Repr

def Channel.name : Channel → String
  | .policy => "curlguard.probe.policy"
  | .executor => "curlguard.probe.executor"
  | .diagnostics => "curlguard.probe.diagnostics"
  | .response => "curlguard.probe.response"
  | .pipeline => "curlguard.probe.pipeline"
  | .makeRequest => "curlguard.tools.make_request"
  | .registry => "curlguard.tools.registry"
  | .terminal => "curlguard.cli"

structure Record where
  level : Level
  channel : Channel
  message : String
  /-- What an exception says that is shown below the message. -/
  raised : Option String
  deriving DecidableEq, Repr

/-- Is the record at least as serious as `level`? -/
def Record.reaches (record : Record) (level : Level) : Bool := level.rank ≤ record.level.rank

/-! ### Text -/

structure Trace where
  /-- The calls that were in progress, each with the place in the program. -/
  calls : List String
  kind : String
  deriving DecidableEq, Repr

def Trace.lines (trace : Trace) (raised : String) : List String :=
  let last := if raised.isEmpty then trace.kind else trace.kind ++ ": " ++ raised
  "Traceback (most recent call last):" :: trace.calls ++ [last]

/-- The line of a log that shows the message, with the level padded to eight characters. -/
def Record.line (time : String) (record : Record) : String :=
  let level := record.level.name
  let padding := String.ofList (List.replicate (8 - level.length) ' ')
  time ++ " | " ++ level ++ padding ++ " | " ++ record.channel.name ++ " | " ++ record.message

/-- The record as it stands in a log: its message, and below that the exception that it shows. -/
def Record.text (time : String) (trace : Trace) (record : Record) : String :=
  let line := record.line time
  match record.raised with
  | none => line
  | some raised =>
    (if line.endsWith "\n" then line else line ++ "\n") ++ "\n".intercalate (trace.lines raised)

end CurlWarden.Log
