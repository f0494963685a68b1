import CurlWarden.Diagnostics.Metadata
import CurlWarden.Diagnostics.Pattern
import CurlWarden.Fault
import CurlWarden.Log
import CurlWarden.Text.Quoted

/-!
# Rules for reading the diagnostic stream

A rule set says which pattern supplies which field. Every rule is searched for on its own, at its
leftmost place; where two rules supply one field the later rule wins. The error text is looked for
last, and only in a stream that holds one of the markers.
-/

namespace CurlWarden.Diagnostics

structure Rule where
  field : String
  pattern : Pattern
  deriving DecidableEq, Repr

structure RuleSet where
  version : String
  rules : List Rule
  errorMarkers : List String := []
  errorPattern : Option Pattern := none
  deriving DecidableEq, Repr

def Rule.ofHeader (field header : String) : Rule := ⟨field, .header header⟩

/-- The rules for the verbose stream of the transfer program. Header names match as they are
written. -/
def RuleSet.standard : RuleSet where
  version := "curl-verbose/1"
  rules :=
    [⟨Field.statusCode.name, .status⟩,
     .ofHeader Field.contentType.name "Content-Type",
     ⟨Field.contentLength.name, .length⟩,
     .ofHeader Field.server.name "Server",
     .ofHeader Field.connection.name "Connection",
     .ofHeader Field.date.name "Date",
     .ofHeader Field.etag.name "ETag",
     .ofHeader Field.xPoweredBy.name "X-Powered-By",
     ⟨Field.responseTime.name, .duration⟩]
  errorMarkers := ["curl:", "error:"]
  errorPattern := some .failure

def wholeDatum (digits : List Char) : Except Fault Datum :=
  if Json.maxDigits < digits.length then .error (.tooManyDigits digits.length)
  else .ok (.number (Text.digitsValue digits))

def secondsDatum (captured : List Char) : Datum :=
  let (whole, fraction) := Text.splitAtFirst '.' captured
  .seconds (.ofDecimal false (Text.digitsValue (whole ++ fraction)) (-fraction.length))

/-- What a captured text says. -/
def Pattern.datum (pattern : Pattern) (captured : List Char) : Except Fault Datum :=
  match pattern with
  | .status | .length => wholeDatum captured
  | .duration => .ok (secondsDatum captured)
  | .header _ | .failure => .ok (.text (String.ofList (Text.trim captured)))

/-- What the rules find, in the order of the rules. -/
def findings (stream : List Char) : List Rule → Except Fault (List (String × Datum))
  | [] => .ok []
  | rule :: rules =>
    match rule.pattern.search? stream with
    | none => findings stream rules
    | some captured =>
      match rule.pattern.datum captured with
      | .error fault => .error fault
      | .ok datum => (findings stream rules).map ((rule.field, datum) :: ·)

namespace RuleSet

/-- The rule for the error text, where the stream holds a marker. -/
def errorRules (set : RuleSet) (stream : List Char) : List Rule :=
  match set.errorPattern with
  | none => []
  | some pattern =>
    if set.errorMarkers.any fun marker => Text.occurs marker.toList stream then
      [⟨Field.error.name, pattern⟩]
    else []

def findings (set : RuleSet) (stream : List Char) : Except Fault (List (String × Datum)) :=
  Diagnostics.findings stream (set.rules ++ set.errorRules stream)

end RuleSet

/-- The metadata that a list of findings gives; a later finding wins. -/
def Metadata.ofFindings : Metadata → List (String × Datum) → Except Fault Metadata
  | m, [] => .ok m
  | m, (name, datum) :: rest =>
    match Field.ofName? name with
    | none => .error (.unknownField name)
    | some field => ofFindings (m.set field datum) rest

/-- The names of what was found, sorted and each once. -/
def foundNames (found : List (String × Datum)) : List String :=
  ((found.map (·.1)).eraseDups).mergeSort fun a b => decide (a ≤ b)

/-- What the log is told about findings; nothing if there are none. -/
def foundRecords (version : String) (found : List (String × Datum)) : List Log.Record :=
  if found.isEmpty then []
  else
    [⟨.debug, .diagnostics,
      "Parsed diagnostics (" ++ version ++ "): " ++ Text.quotedList (foundNames found), none⟩]

/-- What reading a diagnostic stream gives: the metadata or a fault, and what the log is told. -/
structure Reading where
  metadata : Except Fault Metadata
  records : List Log.Record

def RuleSet.read (set : RuleSet) (stream : String) : Reading :=
  match set.findings stream.toList with
  | .error fault => ⟨.error fault, []⟩
  | .ok found => ⟨Metadata.ofFindings .empty found, foundRecords set.version found⟩

end CurlWarden.Diagnostics
