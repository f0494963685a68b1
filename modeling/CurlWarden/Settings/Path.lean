/-!
# File paths

Paths between slashes. Empty components and single points stand for nothing and are dropped; a
double point is kept, since what it leads to depends on the files. A path is absolute if it starts
with a slash, and two slashes, but not more, are a root of their own.
-/

namespace CurlWarden

/-- A path, as the slashes in front of it and its components. -/
structure Path where
  root : String
  parts : List String
  deriving DecidableEq, Repr, Inhabited

namespace Path

/-- The slashes that make a text an absolute path. -/
def rootOf (cs : List Char) : String :=
  match (cs.takeWhile (· == '/')).length with
  | 0 => ""
  | 2 => "//"
  | _ => "/"

def isPart (part : String) : Bool := part ≠ "" && part ≠ "."

def ofText (s : String) : Path :=
  ⟨rootOf s.toList, ((s.toList.splitOn '/').map String.ofList).filter isPart⟩

/-- The text of a path; a relative path without components is a point. -/
def toText (path : Path) : String :=
  if path.root.isEmpty && path.parts.isEmpty then "."
  else path.root ++ "/".intercalate path.parts

def isAbsolute (path : Path) : Bool := !path.root.isEmpty

/-- The path `other` as seen from `path`: an absolute path is the same from everywhere. -/
def join (path other : Path) : Path :=
  if other.isAbsolute then other else ⟨path.root, path.parts ++ other.parts⟩

/-- The components that are left when each double point takes away the component before it; those
that find nothing to take away are counted. -/
def resolve : (kept : List String) → (above : Nat) → List String → Nat × List String
  | kept, above, [] => (above, kept.reverse)
  | kept, above, part :: parts =>
    if part = ".." then
      match kept with
      | [] => resolve [] (above + 1) parts
      | _ :: kept => resolve kept above parts
    else resolve (part :: kept) above parts

/-- The place of a relative path below the working directory, as components; nothing if it lies
elsewhere. -/
def below? (path : Path) : Option (List String) :=
  match path.isAbsolute, resolve [] 0 path.parts with
  | false, (0, parts) => some parts
  | _, _ => none

example : (ofText "x/y/../z//").toText = "x/y/../z" := by decide +kernel
example : ((ofText "a/./b").join (ofText "/c")).toText = "/c" := by decide +kernel
example : (ofText "x/y/../z").below? = some ["x", "z"] := by decide +kernel

end Path

end CurlWarden
