import CurlWarden.Diagnostics.RuleSet

/-!
# Reports

What the caller of a probe receives: the response body, decoded where it is JSON, the metadata of
the response, and on request the diagnostic stream itself. A probe that fails reports its error and
an empty body.
-/

namespace CurlWarden

structure Report where
  data : Json.Value
  metadata : Diagnostics.Metadata := .empty
  rawStream : Option String := none

namespace Report

open Diagnostics (Field)

def failure (message : String) : Report where
  data := .text ""
  metadata := .set .empty .error (.text message)

def error? (report : Report) : Option Diagnostics.Datum := report.metadata.get? .error

/-- Did a response arrive, or at least no error? -/
def isOk (report : Report) : Bool :=
  report.error?.isNone || (report.metadata.get? .statusCode).isSome

/-- What is known besides the body, under its key. -/
def extras (report : Report) : List (Json.CodePoints × Json.Value) :=
  report.metadata.entries.map (fun (f, datum) => (.ofString f.key, datum.toJson)) ++
    (report.rawStream.map fun s => (.ofString "rawStderr", .text s)).toList

/-- The report as members of an object: the body comes first, or last if it is null. -/
def members (report : Report) : List (Json.CodePoints × Json.Value) :=
  let body : Json.CodePoints × Json.Value := ("data", report.data)
  match report.data with
  | .null => report.extras ++ [body]
  | _ => body :: report.extras

def toJson (report : Report) : Json.Value := .object report.members

end Report

/-! ### Response bodies -/

/-- A response body: decoded if it is JSON, else the text itself, with what the log is told. -/
structure Payload where
  data : Except Fault Json.Value
  records : List Log.Record

def Payload.ofText (body : String) : Payload :=
  match Json.Value.read body.toList with
  | .ok data => ⟨.ok data, []⟩
  | .error (.malformed why) =>
    ⟨.ok (.text body),
      [⟨.debug, .response,
        "Response body is not JSON (" ++ why.message ++ "), keeping raw text", none⟩]⟩
  | .error (.tooManyDigits count) => ⟨.error (.tooManyDigits count), []⟩
  | .error (.tooDeep container) => ⟨.error (.tooDeep container), []⟩

end CurlWarden
