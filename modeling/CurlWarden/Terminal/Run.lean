import CurlWarden.Json.Printer
import CurlWarden.Session.Basic
import CurlWarden.Terminal.Host
import CurlWarden.Terminal.Order
import CurlWarden.Tool.Registry

/-!
# Runs of the program

What the program prints, logs and returns for each order. It returns 0 if all is well, 1 if it
cannot do what it is asked to do, and 2 if a command is refused or fails. Settings are loaded
first; faulty ones keep it from doing anything.
-/

namespace CurlWarden.Terminal

structure Effect where
  /-- What it prints. -/
  output : String
  /-- What it returns, or the fault that stops it. -/
  status : Except Fault Nat
  records : List Log.Record := []
  /-- The run of its child, if there was an attempt to start one. -/
  child : Option Child.Run := none

def printed (lines : List String) : String := String.join (lines.map (· ++ "\n"))

/-! ### Orders that need no command -/

def usage : List String :=
  ["Usage: curlguard [--debug] <command> [text]",
   "Commands: probe, check, flags, tools, health",
   "Flags: --debug (enable debug logging)"]

def usageOf (command : String) : String := "Usage: curlguard " ++ command ++ " <curl command | ->"

def bySpelling (flags : List Flag) : List Flag :=
  flags.mergeSort fun f g => decide (f.spelling ≤ g.spelling)

def flagLines : List String :=
  let allowed := bySpelling (Flag.all.filter (·.isAllowed))
  let denied := bySpelling (Flag.all.filter (·.isDenied))
  ["Allowed:"] ++
    allowed.map (fun f => "  " ++ f.spelling ++ if f.takesValue then " <value>" else "") ++
    ["Denied:"] ++ denied.map (fun f => "  " ++ f.spelling)

def listTools : Effect :=
  let (registry, records) := Registry.registerAll {} Registry.builtin
  { output := printed [registry.describe], status := .ok 0, records }

/-- Tells whether the program that commands run is there. -/
def reportHealth (host : Host) : Effect :=
  match host.program? with
  | some path => { output := printed ["curl: OK (" ++ path ++ ")"], status := .ok 0 }
  | none => { output := printed ["curl: NOT FOUND on PATH"], status := .ok 1 }

/-! ### Checking and probing -/

/-- Prints the argument vector that a text asks for, or why it is refused. -/
def check (limits : Limits) (text : String) : Effect :=
  match checkText limits text with
  | .ok argv =>
    { output := printed [String.ofList ((Json.Value.texts argv.toList).print .compact)]
      status := .ok 0 }
  | .error refusal =>
    { output := printed ["Rejected (" ++ refusal.kind ++ "): " ++ refusal.message]
      status := .ok 2
      records := [refusal.record] }

def announcement : Log.Record := ⟨.info, .terminal, "Running probe from CLI", none⟩

/-- Prints what the request tool returns for a report. Nothing at all is printed where it cannot be
encoded. -/
def showReport (report : Report) : Except Fault String :=
  match report.envelope.print? .indented with
  | some text => .ok (printed [String.ofList text])
  | none => .error .unprintable

/-- Runs the command that a text asks for and shows its report. -/
def probe (host : Host) (settings : Settings) (text : String) : Effect :=
  let options := settings.options
  let probe := Probe.make options host.env host.script text
  let records :=
    announcement :: Session.configured settings :: probe.records options.keepStream .zero
  let child := probe.run?
  match probe.answer options.keepStream with
  | .error fault => { output := "", status := .error fault, records, child }
  | .ok report =>
    match showReport report with
    | .error fault => { output := "", status := .error fault, records, child }
    | .ok output => { output, status := .ok (if report.isOk then 0 else 2), records, child }

/-! ### The program -/

def perform (host : Host) (settings : Settings) : Order → Effect
  | .nothing => { output := printed usage, status := .ok 1 }
  | .textless command => { output := printed [usageOf command], status := .ok 1 }
  | .unknown command => { output := printed ["Unknown command: " ++ command], status := .ok 1 }
  | .flags => { output := printed flagLines, status := .ok 0 }
  | .tools => listTools
  | .health => reportHealth host
  | .check text => check settings.limits text
  | .probe text => probe host settings text

def levelFor (arguments : List String) : Log.Level := if wantsDebug arguments then .debug else .info

def settingsOf (host : Host) : Except (List Settings.Problem) Settings :=
  Settings.load { env := host.env, file := host.settingsFile }

/-- What a run of the program does, where only the records that are written are kept, and the path
of its log. -/
def run (host : Host) (arguments : List String) : Except (List Settings.Problem) (Path × Effect) :=
  (settingsOf host).map fun settings =>
    let effect := perform host settings (Order.ofArguments host.input arguments)
    let level := levelFor arguments
    (settings.logPath, { effect with records := effect.records.filter (·.reaches level) })

/-- The text of a log, where `time` stands at the head of every record. -/
def logText (time : String) (trace : Log.Trace) (records : List Log.Record) : String :=
  printed (records.map (·.text time trace))

end CurlWarden.Terminal
