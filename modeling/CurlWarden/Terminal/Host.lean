import CurlWarden.Child.Run
import CurlWarden.Command.Fence

/-!
# The host

What the program finds on the machine where it is started, and how it looks for the program that
commands run: in the directories of the search path, from first to last.
-/

namespace CurlWarden.Terminal

structure Host where
  env : Environment := []
  /-- The text of the settings file, if there is one. -/
  settingsFile : Option String := none
  input : String := ""
  /-- How a child behaves. -/
  script : Child.Script := {}
  /-- Is there an executable file at a path? -/
  isExecutable : String → Bool := fun _ => false

/-- The search path of an environment that has none. -/
def defaultSearchPath : String := "/bin:/usr/bin"

namespace Host

/-- The directories of the search path. An empty path has none. -/
def directories (host : Host) : List String :=
  let path := (host.env.get? "PATH").getD defaultSearchPath
  if path.isEmpty then [] else (path.toList.splitOn ':').map String.ofList

def fileIn (directory file : String) : String :=
  if directory.isEmpty || directory.toList.getLast? == some '/' then directory ++ file
  else directory ++ "/" ++ file

/-- The first place at which the program that commands run is found. -/
def program? (host : Host) : Option String :=
  (host.directories.map (fileIn · Command.program)).find? host.isExecutable

end Host

end CurlWarden.Terminal
