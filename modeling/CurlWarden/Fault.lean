import CurlWarden.Json.Reader

/-!
# Faults

Failures that a probe does not turn into a report. They concern what the child wrote, or how it
was started, and not the command: a number with too many digits, JSON nested too deep, a rule for
metadata that does not exist, and a start that breaks down in an unexpected way. The last one comes
up when a report is printed: half of a surrogate pair in a response body is decoded, but cannot be
encoded again.
-/

namespace CurlWarden

inductive Fault where
  | tooManyDigits (count : Nat)
  | tooDeep (container : Json.Container)
  | unknownField (name : String)
  | unexpected (text : String)
  | unprintable
  deriving DecidableEq, Repr

def Fault.message : Fault → String
  | .tooManyDigits count =>
    "Exceeds the limit (4300 digits) for integer string conversion: value has " ++ toString count ++
      " digits; use sys.set_int_max_str_digits() to increase the limit"
  | .tooDeep .array =>
    "maximum recursion depth exceeded while decoding a JSON array from a unicode string"
  | .tooDeep .object =>
    "maximum recursion depth exceeded while decoding a JSON object from a unicode string"
  | .unknownField name =>
    "DiagnosticMetadata.__init__() got an unexpected keyword argument '" ++ name ++ "'"
  | .unexpected text => text
  | .unprintable => "surrogates not allowed"

end CurlWarden
