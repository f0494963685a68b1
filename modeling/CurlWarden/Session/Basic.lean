import CurlWarden.Session.Gate
import CurlWarden.Settings.Load

/-!
# Sessions

The state that calls of the request tool share: how probes are made, how many may be in progress at
once, the gate that sees to it, and the clock. Steps change it: settings may be applied, calls may
be made, one alone or several together, and the clock may be started anew.

The gate is made when it is first needed and kept; it is made anew when settings have been applied
and when it belongs to an earlier timeline of the clock.
-/

namespace CurlWarden

structure Call where
  text : String
  /-- What the request is meant to show. -/
  evidence : String := ""
  script : Child.Script := {}
  deriving DecidableEq, Repr, Inhabited

structure Answer where
  probe : Probe
  report : Except Fault Report
  stay : Session.Stay

namespace Answer

/-- Did the call succeed? A fault is no success. -/
def success (answer : Answer) : Bool :=
  match answer.report with
  | .ok report => report.isOk
  | .error _ => false

end Answer

namespace Report

/-- What the request tool returns for a report. -/
def envelope (report : Report) : Json.Value :=
  .object [("success", .bool report.isOk), ("apiResponse", report.toJson)]

/-- The error that the request tool returns for a report: only that of a failure. -/
def toolError? (report : Report) : Option Diagnostics.Datum :=
  if report.isOk then none else report.error?

end Report

structure Session where
  options : Options := {}
  maxConcurrent : Nat := 4
  gate : Option Session.Gate := none
  timeline : Nat := 0
  now : Moment := .start
  deriving DecidableEq, Repr, Inhabited

namespace Session

/-- How much of the evidence the log shows, in characters. -/
def shownEvidence : Nat := 200

def arrival (call : Call) : List Log.Record :=
  if call.evidence.isEmpty then []
  else
    [⟨.info, .makeRequest,
      "make_request: " ++ String.ofList (call.evidence.toList.take shownEvidence), none⟩]

def configure (session : Session) (settings : Settings) : Session :=
  { session with
    options := settings.options, maxConcurrent := settings.maxConcurrent, gate := none }

def configured (settings : Settings) : Log.Record :=
  ⟨.debug, .makeRequest,
    "make_request configured: timeout=" ++ settings.timeout.full ++ "s, concurrency=" ++
      toString settings.maxConcurrent, none⟩

def restart (session : Session) : Session :=
  { session with timeline := session.timeline + 1, now := .start }

/-- The gate for the next calls: the one that is kept, if it belongs to this timeline. -/
def currentGate (session : Session) : Gate :=
  match session.gate with
  | some gate =>
    if gate.timeline = session.timeline then gate
    else .ofCapacity session.timeline session.maxConcurrent
  | none => .ofCapacity session.timeline session.maxConcurrent

/-! ### The order of the log -/

/-- Log records that are written together. At one moment, calls that end come before calls that
are let through. -/
structure Entry where
  moment : Moment
  isEnd : Bool
  records : List Log.Record
  deriving DecidableEq, Repr

/-- Does `a` come no later than `b`? -/
def Entry.precedes (a b : Entry) : Bool :=
  a.moment.before b.moment || (!b.moment.before a.moment && (a.isEnd || !b.isEnd))

/-- What one call has written to the log, where calls came at `start`. -/
def entries (start : Moment) (keepStream : Bool) (call : Call) (answer : Answer) : List Entry :=
  let stay := answer.stay
  let opening := answer.probe.opening
  let closing := answer.probe.closing keepStream stay.slot.reading
  ⟨start, false, arrival call⟩ ::
    match answer.probe.wait? with
    | none => [⟨stay.slot, false, opening ++ closing⟩]
    | some _ => [⟨stay.slot, false, opening⟩, ⟨stay.finish, true, closing⟩]

/-- The records of several calls in the order in which they are written. -/
def recordsOf (start : Moment) (keepStream : Bool) (calls : List Call) (answers : List Answer) :
    List Log.Record :=
  let all := (List.zipWith (entries start keepStream) calls answers).flatten
  (all.mergeSort Entry.precedes).flatMap (·.records)

/-! ### Calls -/

def probe (session : Session) (env : Environment) (call : Call) : Probe :=
  .make session.options env call.script call.text

/-- Makes calls together, and waits for all of them. -/
def callAll (session : Session) (env : Environment) (calls : List Call) :
    Session × List Answer × List Log.Record :=
  let keepStream := session.options.keepStream
  let start := session.now.afresh
  let gate := session.currentGate
  let probes := calls.map (session.probe env)
  let stays := Gate.schedule gate.capacity start [] (probes.map (·.wait?))
  let answers := List.zipWith (fun probe stay => ⟨probe, probe.answer keepStream, stay⟩) probes stays
  let ends := stays.map (·.finish)
  let now := Gate.lastEnd start ends
  ({ session with gate := some (gate.settle now ends), now }, answers,
    recordsOf start keepStream calls answers)

/-! ### Steps -/

inductive Step where
  | configure (given : List (String × Literal))
  | callAll (calls : List Call)
  | restart

inductive Event where
  | configured (settings : Settings)
  | unchanged (problems : List Settings.Problem)
  | answered (answers : List Answer)
  | restarted

/-- Takes a step. Settings that are at fault change nothing. -/
def step (env : Environment) (session : Session) : Step → Session × Event × List Log.Record
  | .configure given =>
    match Settings.load { given, env } with
    | .ok settings =>
      (session.configure settings, .configured settings, [Session.configured settings])
    | .error problems => (session, .unchanged problems, [])
  | .callAll calls =>
    let (session, answers, records) := session.callAll env calls
    (session, .answered answers, records)
  | .restart => (session.restart, .restarted, [])

/-- Takes steps one after the other: what each comes to, and everything that the log is told. -/
def steps (env : Environment) :
    Session → List Step → Session × List Event × List Log.Record
  | session, [] => (session, [], [])
  | session, s :: rest =>
    let (session, event, records) := session.step env s
    let (session, events, more) := steps env session rest
    (session, event :: events, records ++ more)

end Session

end CurlWarden
