import CurlWarden.Child.Run
import CurlWarden.Policy.Check
import CurlWarden.Report

/-!
# Probes

A probe from the text of a request to its report: the command is taken out of the text and checked,
and only then run; what the child wrote is read and reported. Refused commands and failed runs
become reports as well; only a fault escapes.

A probe is a value that holds its outcome and what the log is told, so nothing here depends on when
it happens except for the duration in the log.
-/

namespace CurlWarden

structure Options where
  limits : Limits := .default
  /-- Is the diagnostic stream attached to reports? -/
  keepStream : Bool := false
  deriving DecidableEq, Repr, Inhabited

/-- The argument vector that a text asks for, or why it is not run. -/
def checkText (limits : Limits) (text : String) : Except Refusal Argv :=
  Policy.check limits (Command.embedded text)

/-- What becomes of a text: it is refused, or its command is run. -/
inductive Probe where
  | refused (refusal : Refusal)
  | ran (run : Child.Run)
  deriving DecidableEq, Repr

namespace Probe

/-- Probes what `text` asks for, with a child that behaves as scripted. -/
def make (options : Options) (env : Environment) (script : Child.Script) (text : String) : Probe :=
  match checkText options.limits text with
  | .error refusal => .refused refusal
  | .ok argv => .ran (Child.run options.limits env argv script)

def run? : Probe → Option Child.Run
  | .refused _ => none
  | .ran run => some run

def killed (probe : Probe) : Bool := probe.run?.any (·.killed)

/-- How long the probe waits for its child; nothing if it ends without waiting. -/
def wait? (probe : Probe) : Option Rat := probe.run?.bind (·.wait?)

def failed (label message : String) : Except Fault Report × List Log.Record :=
  (.ok (.failure message),
    [⟨.warning, .pipeline, "Probe failed [" ++ label ++ "]: " ++ message, none⟩])

def statusText (metadata : Diagnostics.Metadata) : String :=
  match metadata.get? .statusCode with
  | some (.number n) => toString n
  | some (.seconds x) => x.full
  | some (.text s) => s
  | none => "None"

/-- The report on a child that finished, and what the log is told about it. -/
def finished (keepStream : Bool) (outcome : Child.Outcome) :
    Except Fault Report × List Log.Record :=
  let reading := Diagnostics.RuleSet.standard.read outcome.err
  match reading.metadata with
  | .error fault => (.error fault, reading.records)
  | .ok metadata =>
    let exitRecords : List Log.Record :=
      if outcome.exitCode = 0 then []
      else
        [⟨.info, .pipeline,
          "curl exited with " ++ toString outcome.exitCode ++ ", status=" ++ statusText metadata,
          none⟩]
    let payload := Payload.ofText outcome.out
    let report := payload.data.map fun data =>
      { data, metadata, rawStream := if keepStream then some outcome.err else none : Report }
    (report, reading.records ++ exitRecords ++ payload.records)

/-- The report or fault that a probe comes to, and what the log is told about it after the records
of the run itself. -/
def result (keepStream : Bool) : Probe → Except Fault Report × List Log.Record
  | .refused refusal => failed refusal.label refusal.message
  | .ran run =>
    match run.conclusion with
    | .failed failure => failed ("execution/" ++ failure.label) failure.message
    | .broken text =>
      (.ok (.failure ("Execution error: " ++ text)),
        [⟨.error, .pipeline, "Probe failed unexpectedly: " ++ text, some text⟩])
    | .finished outcome => finished keepStream outcome

def answer (keepStream : Bool) (probe : Probe) : Except Fault Report := (probe.result keepStream).1

/-- What the log is told before the child is waited for. -/
def opening : Probe → List Log.Record
  | .refused refusal => [refusal.record]
  | .ran run => run.opening

/-- What the log is told at the end, for a probe whose child was started when the clock showed
`reading`. -/
def closing (keepStream : Bool) (reading : Binary64) (probe : Probe) : List Log.Record :=
  (probe.run?.elim [] fun run => run.closing reading) ++ (probe.result keepStream).2

/-- Everything that the log is told, for a probe that begins when the clock shows `reading`. -/
def records (keepStream : Bool) (reading : Binary64) (probe : Probe) : List Log.Record :=
  probe.opening ++ probe.closing keepStream reading

end Probe

end CurlWarden
