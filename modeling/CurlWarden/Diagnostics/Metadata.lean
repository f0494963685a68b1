import CurlWarden.Json.Value

/-!
# Response metadata

What the diagnostic stream of a transfer says about the response. Each field holds at most one
datum.
-/

namespace CurlWarden.Diagnostics

/-- A piece of metadata, in the order in which a report lists them. -/
inductive Field where
  | statusCode
  | responseTime
  | contentLength
  | contentType
  | server
  | connection
  | date
  | etag
  | xPoweredBy
  | error
  deriving DecidableEq, Repr

namespace Field

/-- Every field, in the order of a report. -/
def all : List Field :=
  [.statusCode, .responseTime, .contentLength, .contentType, .server, .connection, .date, .etag,
   .xPoweredBy, .error]

/-- The name of the field in rules and in the log. -/
def name : Field → String
  | .statusCode => "status_code"
  | .responseTime => "response_time"
  | .contentLength => "content_length"
  | .contentType => "content_type"
  | .server => "server"
  | .connection => "connection"
  | .date => "date"
  | .etag => "etag"
  | .xPoweredBy => "x_powered_by"
  | .error => "error"

/-- The key of the field in a report. -/
def key : Field → String
  | .statusCode => "statusCode"
  | .responseTime => "responseTime"
  | .contentLength => "contentLength"
  | .contentType => "contentType"
  | .server => "server"
  | .connection => "connection"
  | .date => "date"
  | .etag => "etag"
  | .xPoweredBy => "xPoweredBy"
  | .error => "error"

def ofName? (name : String) : Option Field := all.find? (·.name == name)

theorem mem_all (f : Field) : f ∈ all := by cases f <;> decide

theorem ofName?_name (f : Field) : ofName? f.name = some f := by cases f <;> decide +kernel

end Field

inductive Datum where
  | number (n : Int)
  | seconds (x : Binary64)
  | text (s : String)
  deriving DecidableEq, Repr

def Datum.toJson : Datum → Json.Value
  | .number n => .int n
  | .seconds x => .float x
  | .text s => .text s

structure Metadata where
  get? : Field → Option Datum

namespace Metadata

def empty : Metadata := ⟨fun _ => none⟩

instance : Inhabited Metadata := ⟨empty⟩

def set (m : Metadata) (field : Field) (datum : Datum) : Metadata :=
  ⟨fun f => if f = field then some datum else m.get? f⟩

/-- The fields that are set, in the order of a report. -/
def entries (m : Metadata) : List (Field × Datum) :=
  Field.all.filterMap fun f => (m.get? f).map (f, ·)

@[ext] theorem ext {m n : Metadata} (h : ∀ f, m.get? f = n.get? f) : m = n := by
  cases m; cases n; exact congrArg mk (funext h)

@[simp] theorem get?_empty (f : Field) : empty.get? f = none := rfl

@[simp] theorem get?_set (m : Metadata) (field f : Field) (datum : Datum) :
    (m.set field datum).get? f = if f = field then some datum else m.get? f := rfl

end Metadata

end CurlWarden.Diagnostics
