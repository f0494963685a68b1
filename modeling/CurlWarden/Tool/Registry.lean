import CurlWarden.Json.Value
import CurlWarden.Log
import CurlWarden.Tool.Request

/-!
# The registry of tools

The tools that are on offer, each under its name. A tool that is registered under a name already
taken replaces the one before it, in its place, and the log gets a warning.
-/

namespace CurlWarden

/-- The tools on offer by name, in order of first registration. -/
structure Registry where
  entries : List (String × Tool) := []
  deriving Repr, BEq, Inhabited

namespace Registry

def has (registry : Registry) (name : String) : Bool := registry.entries.any (·.1 == name)

def register (registry : Registry) (tool : Tool) : Registry :=
  ⟨Json.assign registry.entries tool.name tool⟩

def records (registry : Registry) (tool : Tool) : List Log.Record :=
  (if registry.has tool.name then
    [⟨.warning, .registry, "Tool " ++ tool.name ++ " already registered, overwriting", none⟩]
  else []) ++ [⟨.debug, .registry, "Registered tool: " ++ tool.name, none⟩]

/-- The registry with several tools registered one after the other, and what the log is told. -/
def registerAll : Registry → List Tool → Registry × List Log.Record
  | registry, [] => (registry, [])
  | registry, tool :: tools =>
    let (final, more) := registerAll (registry.register tool) tools
    (final, registry.records tool ++ more)

/-- The tools that come with the program. -/
def builtin : List Tool := [.request]

/-- What agents are told about the tools on offer: a description of each, followed by an empty
line. -/
def describe (registry : Registry) : String :=
  if registry.entries.isEmpty then "No tools available."
  else
    "\n".intercalate
      ("# AVAILABLE TOOLS\n" :: registry.entries.flatMap fun (_, tool) => [tool.describe, ""])

end Registry

end CurlWarden
