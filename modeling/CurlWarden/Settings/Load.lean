import CurlWarden.Child.Run
import CurlWarden.Probe
import CurlWarden.Settings.Path
import CurlWarden.Settings.Scalar

/-!
# Loading settings

Settings come from three places. A value given directly wins over the environment, the environment
over the `.env` file, and the file over the default. All faults are reported together, in the order
of the settings; a name that is no setting is a fault if it is given directly or in the file, while
other programs' variables in the environment are none of our business.
-/

namespace CurlWarden

structure Settings where
  dataDir : Path := .ofText "data"
  logName : String := "curlguard.log"
  timeout : Binary64 := Limits.default.timeout
  maxOutputBytes : Int := Limits.default.maxOutputBytes
  maxConcurrent : Nat := 4
  includeStream : Bool := false
  deriving DecidableEq, Repr, Inhabited

namespace Settings

def logPath (settings : Settings) : Path := settings.dataDir.join (.ofText settings.logName)

def limits (settings : Settings) : Limits :=
  { Limits.default with timeout := settings.timeout, maxOutputBytes := settings.maxOutputBytes }

def options (settings : Settings) : Options := ⟨settings.limits, settings.includeStream⟩

/-! ### Names -/

/-- A setting, in the order in which faults are reported. -/
inductive Key where
  | dataDir
  | logName
  | timeout
  | maxOutputBytes
  | maxConcurrent
  | includeStream
  deriving DecidableEq, Repr

namespace Key

def all : List Key :=
  [.dataDir, .logName, .timeout, .maxOutputBytes, .maxConcurrent, .includeStream]

def name : Key → String
  | .dataDir => "data_dir"
  | .logName => "log_name"
  | .timeout => "timeout_seconds"
  | .maxOutputBytes => "max_output_bytes"
  | .maxConcurrent => "max_concurrent_requests"
  | .includeStream => "include_raw_stderr"

/-- The name of the variable for a setting, in lower case. -/
def variableName (key : Key) : String := "curlguard_" ++ key.name

end Key

/-- A text with its ASCII letters in lower case, as names of variables are compared. -/
def lowered (s : String) : String := String.ofList (s.toList.map Char.toLower)

/-- A fault: the setting, or the name that is none, and what is wrong with it. -/
structure Problem where
  name : String
  cause : Cause
  deriving DecidableEq, Repr

/-! ### The file -/

/-- The assignment on a line of a `.env` file; nothing on a blank line, a comment or a line without
an equals sign. -/
def assignment? (line : List Char) : Option (String × String) :=
  let line := Text.trim line
  if line.isEmpty || line.head? == some '#' || !line.contains '=' then none
  else
    let (name, value) := Text.splitAtFirst '=' line
    some (String.ofList (Text.trim name), String.ofList (Text.trim value))

def linesOf (s : String) : List (List Char) := s.toList.splitOn '\n'

/-- The variables that a `.env` file sets, names in lower case, in order of first appearance. -/
def fileVariables (file : String) : List (String × String) :=
  Json.assignAll (((linesOf file).filterMap assignment?).map fun (name, value) =>
    (lowered name, value))

def environmentVariables (env : Environment) : List (String × String) :=
  Json.assignAll (env.map fun (name, value) => (lowered name, value))

/-! ### Sources -/

structure Sources where
  given : List (String × Literal) := []
  env : Environment := []
  file : Option String := none

namespace Sources

/-- The value for a setting from the source that wins, if any source has one. -/
def value? (sources : Sources) (key : Key) : Option Literal :=
  let among (entries : List (String × String)) : Option Literal :=
    ((entries.find? (·.1 == key.variableName)).map (·.2)).map .text
  ((sources.given.find? (·.1 == key.name)).map (·.2)).orElse fun _ =>
    (among (environmentVariables sources.env)).orElse fun _ =>
      sources.file.bind fun file => among (fileVariables file)

/-- Is a variable of the file a fault? One without a value is not, nor is one that has the name of
a setting, with or without the lead of its variable. -/
def isStray (entry : String × String) : Bool :=
  !entry.2.isEmpty && Key.all.all fun key => entry.1 ≠ key.variableName && entry.1 ≠ key.name

def strays (sources : Sources) : List String :=
  (((sources.file.map fileVariables).getD []).filter isStray).map (·.1) ++
    (sources.given.map (·.1)).filter fun name => Key.all.all fun key => name ≠ key.name

end Sources

/-! ### Values -/

def set (settings : Settings) (key : Key) (value : Literal) : Except Cause Settings :=
  match key with
  | .dataDir =>
    match value with
    | .text s => .ok { settings with dataDir := .ofText s }
    | _ => .error .pathKind
  | .logName =>
    match value with
    | .text s => .ok { settings with logName := s }
    | _ => .error .textKind
  | .timeout =>
    match readNumber value with
    | .error cause => .error cause
    | .ok x => if x.isPositive then .ok { settings with timeout := x } else .error .notPositive
  | .maxOutputBytes =>
    match readInteger value with
    | .error cause => .error cause
    | .ok n => if 0 < n then .ok { settings with maxOutputBytes := n } else .error .notPositive
  | .maxConcurrent =>
    match readInteger value with
    | .error cause => .error cause
    | .ok n =>
      if 1 ≤ n then .ok { settings with maxConcurrent := n.toNat } else .error .belowOne
  | .includeStream => (readTruth value).map fun b => { settings with includeStream := b }

/-- Sets every key that has a value, and collects the faults. -/
def setAll (sources : Sources) : List Key → Settings → Settings × List Problem
  | [], settings => (settings, [])
  | key :: keys, settings =>
    match sources.value? key with
    | none => setAll sources keys settings
    | some value =>
      match settings.set key value with
      | .ok settings => setAll sources keys settings
      | .error cause =>
        let (settings, problems) := setAll sources keys settings
        (settings, ⟨key.name, cause⟩ :: problems)

/-- The settings that the sources give, or all that is wrong with them. -/
def load (sources : Sources) : Except (List Problem) Settings :=
  let (settings, problems) := setAll sources Key.all {}
  let all := problems ++ sources.strays.map (⟨·, .unknown⟩)
  if all.isEmpty then .ok settings else .error all

end Settings

end CurlWarden
