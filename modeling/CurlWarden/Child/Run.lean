import CurlWarden.Child.Script
import CurlWarden.Clock
import CurlWarden.Limits
import CurlWarden.Log
import CurlWarden.Number.Shortest
import CurlWarden.Policy.Arguments

/-!
# Supervised runs

Running a child under limits. The child gets its arguments as they are, without a shell, and an
environment that holds its search path only. A run ends when the child is done, when it has written
too much, or when its time is up, whichever comes first; a child that has not exited by then is
killed.
-/

namespace CurlWarden

abbrev Environment := List (String × String)

def Environment.get? (env : Environment) (name : String) : Option String :=
  (List.find? (·.1 == name) env).map (·.2)

/-- The search path that a child is given: empty if there is none. -/
def Environment.path (env : Environment) : String := (env.get? "PATH").getD ""

namespace Child

/-- How a run ends, with the time in milliseconds where the child decides it. -/
inductive Ending where
  | refused (text : String)
  | broken (text : String)
  | timedOut
  | overflowed (time : Nat)
  | finished (time : Nat)
  deriving DecidableEq, Repr

/-- When the time of a run is up, in seconds after its start: at once unless the timeout is
positive, and never if it is infinite. -/
def deadline? (limits : Limits) : Option Rat :=
  if limits.timeout.isPositive then
    if limits.timeout.isFinite then some limits.timeout.toRat else none
  else some 0

def inTime? (limits : Limits) (time : Option Nat) : Option Nat :=
  time.filter fun t => limits.timeout.isPositive &&
    match deadline? limits with
    | some deadline => decide (seconds t < deadline)
    | none => true

/-- How a child that behaves as scripted ends under the limits. -/
def ending (limits : Limits) (script : Script) : Ending :=
  match script.start with
  | .refused text => .refused text
  | .broken text => .broken text
  | .started =>
    match inTime? limits (script.overflow? limits.maxOutputBytes) with
    | some time => .overflowed time
    | none =>
      match inTime? limits script.done? with
      | some time => .finished time
      | none => .timedOut

/-- How long a run takes after its start, in seconds; nothing if the child never started. A run
that neither ends nor has a deadline counts as ending at once. The run waits for a child that it
kills to be gone and its streams to be closed; that is taken to come about at once. -/
def wait? (limits : Limits) : Ending → Option Rat
  | .refused _ | .broken _ => none
  | .timedOut => some ((deadline? limits).getD 0)
  | .overflowed time | .finished time => some (seconds time)

/-- Has the child exited, with a known code, by `time` in seconds? -/
def hasExited (script : Script) (time : Rat) : Bool :=
  script.exitCode.isSome &&
    match script.exits with
    | some exits => decide (seconds exits ≤ time)
    | none => false

/-- What it takes to be rid of the child. -/
inductive Stop where
  /-- Nothing: it exited, or never started. -/
  | unneeded
  /-- It was killed. -/
  | killed
  /-- It was to be killed, and turned out to be gone. -/
  | gone
  deriving DecidableEq, Repr

/-- What is done about the child at the end of a run. A child that is killed is taken to be gone at
once, so there is nothing to wait for. -/
def stop (limits : Limits) (script : Script) (ending : Ending) : Stop :=
  match ending with
  | .refused _ | .broken _ | .finished _ => .unneeded
  | .timedOut | .overflowed _ =>
    if hasExited script ((wait? limits ending).getD 0) then .unneeded
    else if script.elusive then .gone
    else .killed

structure Outcome where
  out : String
  err : String
  exitCode : Int
  /-- When it was done, in milliseconds after its start. -/
  time : Nat
  deriving DecidableEq, Repr

inductive Failure where
  | spawn (program text : String)
  | timeout (limit : Binary64)
  | outputLimit
  deriving DecidableEq, Repr

def Failure.message : Failure → String
  | .spawn program text => "Failed to start " ++ program ++ ": " ++ text
  | .timeout limit => "Command timed out after " ++ limit.brief ++ "s"
  | .outputLimit => "Output exceeded buffer limit"

def Failure.label : Failure → String
  | .spawn _ _ => "spawn"
  | .timeout _ => "timeout"
  | .outputLimit => "output_limit"

/-- What a run comes to. -/
inductive Conclusion where
  | finished (outcome : Outcome)
  | failed (failure : Failure)
  | broken (text : String)
  deriving DecidableEq, Repr

def unknownExitCode : Int := -1

def conclusion (limits : Limits) (argv : Argv) (script : Script) : Ending → Conclusion
  | .refused text => .failed (.spawn argv.program text)
  | .broken text => .broken text
  | .timedOut => .failed (.timeout limits.timeout)
  | .overflowed _ => .failed .outputLimit
  | .finished time =>
    .finished ⟨script.textOn .out, script.textOn .err, script.exitCode.getD unknownExitCode, time⟩

structure Run where
  limits : Limits
  argv : Argv
  /-- All the variables that the child sees. -/
  environment : Environment
  ending : Ending
  stop : Stop
  conclusion : Conclusion
  deriving DecidableEq, Repr

/-- Runs a child that behaves as scripted. -/
def run (limits : Limits) (env : Environment) (argv : Argv) (script : Script) : Run :=
  let ending := Child.ending limits script
  { limits, argv, ending
    environment := [("PATH", env.path)]
    stop := Child.stop limits script ending
    conclusion := Child.conclusion limits argv script ending }

namespace Run

def killed (run : Run) : Bool := run.stop ≠ .unneeded

def wait? (run : Run) : Option Rat := Child.wait? run.limits run.ending

/-- The duration that is reported, in milliseconds, for a run that began when the clock showed
`reading`. -/
def millis (reading : Binary64) (outcome : Outcome) : Nat :=
  millisBetween reading (readingAfter reading (seconds outcome.time))

def opening (run : Run) : List Log.Record :=
  [⟨.debug, .executor,
    "Spawning " ++ run.argv.program ++ " with " ++ toString run.argv.arguments.length ++ " args",
    none⟩]

/-- What the log is told when the run ends, if it began when the clock showed `reading`. -/
def closing (run : Run) (reading : Binary64) : List Log.Record :=
  match run.conclusion with
  | .finished outcome =>
    [⟨.info, .executor,
      "Execution complete: exit=" ++ toString outcome.exitCode ++ ", duration=" ++
        toString (millis reading outcome) ++ "ms", none⟩]
  | .failed (.spawn program text) =>
    [⟨.error, .executor, "Failed to spawn " ++ program ++ ": " ++ text, none⟩]
  | .failed (.timeout limit) =>
    [⟨.warning, .executor, run.argv.program ++ " timed out after " ++ limit.full ++ "s", none⟩]
  | .failed .outputLimit =>
    [⟨.warning, .executor,
      run.argv.program ++ " exceeded " ++ toString run.limits.maxOutputBytes ++ " output bytes",
      none⟩]
  | .broken _ => []

end Run

end Child

end CurlWarden
