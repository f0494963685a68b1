import CurlWarden.Terminal.Run
import Std.Time.Format

/-!
# The command line

The outermost layer: it looks at the machine, has the order carried out, and writes what comes of
it to standard output, standard error and the log.

This layer has no means to start a child, so a probe of an accepted command reports that its child
could not be started. Nor can it see permissions, so every file counts as executable.
-/

namespace CurlWarden.Terminal

def noChildren : String := "this host starts no programs"

/-- The variables that matter, by the names under which they are looked up. -/
def variableNames : List String :=
  "PATH" :: Settings.Key.all.flatMap fun key => [key.variableName.toUpper, key.variableName]

def readEnvironment : IO Environment :=
  variableNames.filterMapM fun name => do
    return (← IO.getEnv name).map fun value => (name, value)

def readSettingsFile : IO (Option String) := do
  try
    return some (← IO.FS.readFile ".env")
  catch _ =>
    return none

def isFile (name : String) : IO Bool := do
  try
    let place ← IO.FS.realPath name
    return (← place.pathExists) && !(← place.isDir)
  catch _ =>
    return false

/-- What stands on standard input, if the command line refers to it. -/
def readInput (arguments : List String) : IO String := do
  if arguments.contains "-" then
    return ← (← IO.getStdin).readToEnd
  return ""

/-- What the program finds where it is started. -/
def look (arguments : List String) : IO Host := do
  let host : Host :=
    { env := ← readEnvironment, settingsFile := ← readSettingsFile, input := ← readInput arguments
      script := { start := .refused noChildren } }
  let files ← (host.directories.map (Host.fileIn · Command.program)).filterM isFile
  return { host with isExecutable := files.contains }

def timeText : IO String := do
  return (← Std.Time.PlainDateTime.now).format "uuuu-MM-dd HH:mm:ss"

/-- Writes log records to standard error and to the end of the log. None of them shows an exception,
since no child is started. -/
def writeLog (path : Path) (records : List Log.Record) : IO Unit := do
  let text := logText (← timeText) { calls := [], kind := "Exception" } records
  IO.eprint text
  IO.FS.createDirAll { path with parts := path.parts.dropLast }.toText
  IO.FS.withFile path.toText .append fun log => log.putStr text

def start (arguments : List String) : IO UInt32 := do
  match run (← look arguments) arguments with
  | .error problems =>
    for problem in problems do
      IO.eprintln (problem.name ++ ": " ++ problem.cause.message)
    return 1
  | .ok (path, effect) =>
    writeLog path effect.records
    IO.print effect.output
    match effect.status with
    | .ok code => return .ofNat code
    | .error fault =>
      IO.eprintln fault.message
      return 1

end CurlWarden.Terminal

def main (arguments : List String) : IO UInt32 := CurlWarden.Terminal.start arguments
