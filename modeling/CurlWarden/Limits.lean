import CurlWarden.Number.Binary64

/-!
# Limits

The ceilings that apply to every probe. Lengths are in characters; a negative ceiling admits
nothing, not even the empty text.
-/

namespace CurlWarden

/-- The ceilings of a probe. -/
structure Limits where
  maxCommandLength : Int := 20000
  maxUrlLength : Int := 4096
  maxHeaderLength : Int := 8192
  /-- How long the child may run, in seconds. -/
  timeout : Binary64 := ⟨0x402E000000000000⟩
  /-- How many bytes the child may write on both streams together. -/
  maxOutputBytes : Int := 2097152
  deriving DecidableEq, Repr, Inhabited

/-- The default ceilings: a timeout of fifteen seconds and two mebibytes of output. -/
def Limits.default : Limits := {}

example : Limits.default.timeout = .ofInt 15 := by decide +kernel

end CurlWarden
