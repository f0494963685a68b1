import CurlWarden.Diagnostics.RuleSet
import CurlWarden.Proofs.Text.Trim

/-!
# What captured texts say

What a pattern captures is converted to a datum. `Pattern.Says` says which datum this is without
converting anything: digits of any script say the number that they write, most significant digit
first; digits with a point say seconds, rounded once; and any other text says itself, without the
blanks at its ends. There is no other way to fail than by too many digits (`datum_eq_ok_iff`).
-/

namespace CurlWarden.Diagnostics

/-- The digits write the number. -/
inductive Writes : List Char → Nat → Prop where
  | nil : Writes [] 0
  | snoc {digits : List Char} {n : Nat} {d : Char} {worth : Nat} (h : Writes digits n)
      (hd : Text.digitValue? d = some worth) : Writes (digits ++ [d]) (10 * n + worth)

theorem digitsValue_append_singleton (digits : List Char) (d : Char) :
    Text.digitsValue (digits ++ [d]) =
      10 * Text.digitsValue digits + (Text.digitValue? d).getD 0 := by
  rw [Text.digitsValue, List.foldl_append]
  rfl

theorem Writes.digitsValue_eq {digits : List Char} {n : Nat} (h : Writes digits n) :
    Text.digitsValue digits = n := by
  induction h with
  | nil => rfl
  | snoc _ hd ih => rw [digitsValue_append_singleton, ih, hd, Option.getD_some]

theorem writes_digitsValue {digits : List Char} (h : ∀ d ∈ digits, Text.isDigit d = true) :
    Writes digits (Text.digitsValue digits) := by
  induction digits using List.reverseRecOn with
  | nil => exact .nil
  | append_singleton digits d ih =>
      obtain ⟨worth, hd⟩ := Option.isSome_iff_exists.1 (h d (by simp))
      rw [digitsValue_append_singleton, hd, Option.getD_some]
      exact .snoc (ih fun e he => h e (List.mem_append_left _ he)) hd

theorem Writes.isDigit {digits : List Char} {n : Nat} (h : Writes digits n) :
    ∀ d ∈ digits, Text.isDigit d = true := by
  induction h with
  | nil => exact nofun
  | snoc _ hd ih =>
      intro d hmem
      rcases List.mem_append.1 hmem with hmem | hmem
      · exact ih d hmem
      · rw [List.mem_singleton.1 hmem, Text.isDigit, hd]
        rfl

theorem wholeDatum_eq_ok_iff {digits : List Char} {datum : Datum}
    (h : ∀ d ∈ digits, Text.isDigit d = true) : wholeDatum digits = .ok datum ↔
      digits.length ≤ Json.maxDigits ∧ ∃ n, Writes digits n ∧ datum = .number n := by
  unfold wholeDatum
  split
  · next hlong => simp [Nat.not_le.2 hlong]
  · next hshort =>
    rw [Except.ok.injEq]
    constructor
    · rintro rfl
      exact ⟨Nat.not_lt.1 hshort, _, writes_digitsValue h, rfl⟩
    · rintro ⟨-, n, hwrites, rfl⟩
      rw [hwrites.digitsValue_eq]

theorem text_trim_eq_iff {captured : List Char} {datum : Datum} :
    .text (String.ofList (Text.trim captured)) = datum ↔
      ∃ text, Text.Trims captured text ∧ datum = .text (String.ofList text) := by
  simp [← Text.trim_eq_iff, eq_comm]

theorem secondsDatum_append {whole fraction : List Char} {n : Nat}
    (h : Writes (whole ++ fraction) n) : secondsDatum (whole ++ '.' :: fraction) =
      .seconds (.ofDecimal false n (-fraction.length)) := by
  have hpoint : '.' ∉ whole :=
    fun hmem => absurd (h.isDigit '.' (List.mem_append_left _ hmem)) (by decide)
  rw [secondsDatum, Text.splitAtFirst_append hpoint]
  dsimp only
  rw [h.digitsValue_eq]

namespace Pattern

/-- What is captured says this. The seconds have as many decimal places as there are digits after
the point. -/
def Says : Pattern → (captured : List Char) → Datum → Prop
  | .status, captured, datum | .length, captured, datum =>
    ∃ n : Nat, Writes captured n ∧ datum = .number n
  | .duration, captured, datum => ∃ whole fraction n, captured = whole ++ '.' :: fraction ∧
    Writes (whole ++ fraction) n ∧ datum = .seconds (.ofDecimal false n (-fraction.length))
  | .header _, captured, datum | .failure, captured, datum =>
    ∃ text, Text.Trims captured text ∧ datum = .text (String.ofList text)

/-- What the pattern can capture: digits, digits with a point, or any text. -/
def Admits : Pattern → (captured : List Char) → Prop
  | .status, captured | .length, captured => ∀ d ∈ captured, Text.isDigit d = true
  | .duration, captured => ∃ whole fraction, captured = whole ++ '.' :: fraction ∧
    ∀ d ∈ whole ++ fraction, Text.isDigit d = true
  | .header _, _ | .failure, _ => True

/-- What is captured is converted to what it says, unless it is a number of too many digits. -/
theorem datum_eq_ok_iff {pattern : Pattern} {captured : List Char} {datum : Datum}
    (h : pattern.Admits captured) : pattern.datum captured = .ok datum ↔
      (pattern = .status ∨ pattern = .length → captured.length ≤ Json.maxDigits) ∧
        pattern.Says captured datum := by
  cases pattern with
  | status => simpa [Says, Pattern.datum] using wholeDatum_eq_ok_iff h
  | length => simpa [Says, Pattern.datum] using wholeDatum_eq_ok_iff h
  | header name => simpa [Says, Pattern.datum] using text_trim_eq_iff
  | failure => simpa [Says, Pattern.datum] using text_trim_eq_iff
  | duration =>
      simp only [Pattern.datum, reduceCtorEq, or_self, false_imp_iff, true_and, Except.ok.injEq]
      constructor
      · rintro rfl
        obtain ⟨whole, fraction, rfl, hdigits⟩ := h
        have hwrites := writes_digitsValue hdigits
        exact ⟨whole, fraction, _, rfl, hwrites, secondsDatum_append hwrites⟩
      · rintro ⟨whole, fraction, n, rfl, hwrites, rfl⟩
        exact secondsDatum_append hwrites

end Pattern

end CurlWarden.Diagnostics
