import CurlWarden.Text.Blank
import CurlWarden.Text.Search
import CurlWarden.Literal

/-!
# Tools

What an agent is told about the tools that it may call: a name, a description, the parameters with
their types, and examples. A tool may be written down directly, or read off the signature of the
function behind it, whose documentation then describes the parameters.
-/

namespace CurlWarden

inductive Risk where
  | low
  | medium
  deriving DecidableEq, Repr, Inhabited

def Risk.name : Risk → String
  | .low => "low"
  | .medium => "medium"

namespace Tool

structure Parameter where
  name : String
  typeName : String
  description : String
  required : Bool := true
  default : Literal := .null
  deriving Repr, BEq, Inhabited

end Tool

structure Tool where
  name : String
  description : String
  parameters : List Tool.Parameter
  risk : Risk := .low
  examples : List String := []
  deriving Repr, BEq, Inhabited

namespace Tool

/-! ### Descriptions -/

/-- A parameter in the head line of its tool. -/
def Parameter.brief (p : Parameter) : String :=
  p.name ++ ": " ++ p.typeName ++ if p.required then "" else " (optional)"

/-- Is the default worth a line of its own? -/
def Parameter.hasShownDefault (p : Parameter) : Bool :=
  match p.default with
  | .null | .text "" => false
  | _ => true

def Parameter.lines (p : Parameter) : List String :=
  let need := if p.required then "required" else "optional"
  ("    - " ++ p.name ++ " (" ++ p.typeName ++ ", " ++ need ++ "): " ++ p.description) ::
    if p.hasShownDefault then ["      default: " ++ p.default.shown] else []

/-- The head line of a tool: how it is called. -/
def headLine (tool : Tool) : String :=
  tool.name ++ "(" ++ ", ".intercalate (tool.parameters.map (·.brief)) ++ ")"

/-- A heading and its lines, or nothing if there are none. -/
def part (heading : String) (lines : List String) : List String :=
  if lines.isEmpty then [] else heading :: lines

def lines (tool : Tool) : List String :=
  [tool.headLine, "  " ++ tool.description] ++
    part "  Parameters:" (tool.parameters.flatMap (·.lines)) ++
    part "  Examples:" (tool.examples.map ("    " ++ ·))

def describe (tool : Tool) : String := "\n".intercalate tool.lines

/-! ### Signatures -/

/-- An exception that an object raises when it is looked at. -/
structure Complaint where
  kind : String
  message : String
  deriving DecidableEq, Repr

/-- How an argument of a function is annotated. -/
inductive Annotation where
  | text
  | whole
  | real
  | truth
  | members
  | items
  /-- Anything else that can be looked up in the table of types. -/
  | other
  /-- Anything that cannot, such as a list. -/
  | faulty (complaint : Complaint)
  deriving DecidableEq, Repr

/-- An annotation that has no hash, of the given type. -/
def Annotation.unhashable (type : String) : Annotation :=
  .faulty ⟨"TypeError", "unhashable type: '" ++ type ++ "'"⟩

/-- The type that agents are told; what has no type of its own passes for a text. -/
def Annotation.typeName : Annotation → Except Complaint String
  | .text | .other => .ok "string"
  | .whole | .real => .ok "number"
  | .truth => .ok "boolean"
  | .members => .ok "object"
  | .items => .ok "array"
  | .faulty complaint => .error complaint

structure Default where
  value : Literal
  /-- What it answers when it is asked whether it equals the mark of arguments without a default.
  Objects may answer as they like; the usual ones equal only themselves. -/
  equalsMark : Except Complaint Bool := .ok false

structure Argument where
  name : String
  annotation : Annotation := .other
  default : Option Default := none

/-- Does the argument stand for the object or class that a function belongs to? -/
def Argument.isReceiver (argument : Argument) : Bool :=
  argument.name == "self" || argument.name == "cls"

/-- What a line of documentation says about the argument `name`, if it is about it: the line reads
`name: description`. -/
def describes? (name : String) (line : List Char) : Option String :=
  let line := Text.trim line
  let (head, description) := Text.splitAtFirst ':' line
  if line.contains ':' && Text.trim head == name.toList then
    some (String.ofList (Text.trim description))
  else none

/-- What the documentation says about an argument: the first line about it counts. -/
def descriptionOf (documentation : String) (name : String) : String :=
  ((documentation.toList.splitOn '\n').findSome? (describes? name)).getD ("Parameter " ++ name)

def Argument.isRequired (argument : Argument) : Except Complaint Bool :=
  match argument.default with
  | none => .ok true
  | some default => default.equalsMark

def Parameter.ofArgument (documentation : String) (argument : Argument) :
    Except Complaint Parameter := do
  let typeName ← argument.annotation.typeName
  let required ← argument.isRequired
  let default := if required then .null else argument.default.elim .null (·.value)
  return { name := argument.name, typeName, required, default
           description := descriptionOf documentation argument.name }

def parametersOf (documentation : String) (arguments : List Argument) :
    Except Complaint (List Parameter) :=
  (arguments.filter (!·.isReceiver)).mapM (Parameter.ofArgument documentation)

/-- The tool that a function is offered as. Without documentation, no line describes an argument. -/
def ofFunction (name description : String) (documentation : Option String)
    (arguments : List Argument) (risk : Risk) (examples : List String) : Except Complaint Tool := do
  let parameters ← parametersOf (documentation.getD "") arguments
  return { name, description, parameters, risk, examples }

example : describes? "b" "  b : Beta: with colon".toList = some "Beta: with colon" := by
  decide +kernel
example : descriptionOf "A: x\n\ta:y:z:\r\na: later" "a" = "y:z:" := by decide +kernel

end Tool

end CurlWarden
