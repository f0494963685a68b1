import CurlWarden.Json.Printer
import CurlWarden.Proofs.Json.Scalar
import CurlWarden.Proofs.Json.Quoted

/-!
# Printed texts and whole numbers

Both layouts of the printer write texts and whole numbers in a way that the reader takes back. The
layouts differ in which characters they escape, but the reader takes every escape, so nothing here
depends on the layout.

A character beyond the first 65536 is escaped as two code units, and the reader joins them only if
some text follows the second. In a text some always does, the closing quote at the latest, and so
`readText_printChar` asks for it.
-/

namespace CurlWarden.Json

/-! ### Escapes by code unit -/

theorem hexValue?_hexDigit {n : Nat} (h : n < 16) : Text.hexValue? (Text.hexDigit n) = some n := by
  have hall : ∀ n < 16, Text.hexValue? (Text.hexDigit n) = some n := by decide
  exact hall n h

/-- Four digits write any code unit. -/
theorem exists_hex {unit : Nat} (h : unit < 0x10000) :
    ∃ a b c d, Text.hex 4 unit = [a, b, c, d] ∧ unit? a b c d = some unit := by
  refine ⟨Text.hexDigit (unit / 4096 % 16), Text.hexDigit (unit / 256 % 16),
    Text.hexDigit (unit / 16 % 16), Text.hexDigit (unit / 1 % 16), rfl, ?_⟩
  have hdigit : ∀ n, Text.hexValue? (Text.hexDigit (n % 16)) = some (n % 16) :=
    fun n => hexValue?_hexDigit (Nat.mod_lt n (by omega))
  simp only [unit?, hdigit]
  congr 1
  omega

/-- The code points of characters leave out the surrogates. -/
theorem toNat_range (c : Char) : c.toNat < 0xD800 ∨ 0xDFFF < c.toNat ∧ c.toNat < 0x110000 :=
  c.valid

theorem isHighSurrogate_toNat (c : Char) : isHighSurrogate c.toNat = false := by
  have hrange := toNat_range c
  simp only [isHighSurrogate, Bool.and_eq_false_iff, decide_eq_false_iff_not]
  omega

theorem ofUnit_toNat (c : Char) : ofUnit c.toNat = .char c := by
  have hrange := toNat_range c
  rw [ofUnit, dif_neg (by omega), Char.ofNat_toNat]

/-- A character that is one code unit is read back from its escape. -/
theorem readUnit_of_lt {c : Char} {rest : List Char} (h : c.toNat < 0x10000) (hrest : rest ≠ []) :
    readUnit (Text.hex 4 c.toNat ++ rest) = .ok (.char c, rest) := by
  obtain ⟨w, x, y, z, hhex, hunit⟩ := exists_hex h
  obtain ⟨e, rest, rfl⟩ := List.exists_cons_of_ne_nil hrest
  rw [hhex]
  show readUnit (w :: x :: y :: z :: e :: rest) = _
  simp only [readUnit, hunit, isHighSurrogate_toNat, ofUnit_toNat]
  rfl

/-- A character that is two code units is read back from their escapes. -/
theorem readUnit_of_le {c : Char} {rest : List Char} (h : 0x10000 ≤ c.toNat) (hrest : rest ≠ []) :
    readUnit (Text.hex 4 (0xD800 + (c.toNat - 0x10000) / 0x400) ++
      (unitEscape (0xDC00 + (c.toNat - 0x10000) % 0x400) ++ rest)) = .ok (.char c, rest) := by
  have hrange := toNat_range c
  obtain ⟨n, hn⟩ : ∃ n, c.toNat = 0x10000 + n := Nat.exists_eq_add_of_le h
  have hchar : Char.ofNat (0x10000 + n / 0x400 * 0x400 + n % 0x400) = c := by
    have hsum : 0x10000 + n / 0x400 * 0x400 + n % 0x400 = c.toNat := by omega
    rw [hsum, Char.ofNat_toNat]
  rw [hn, Nat.add_sub_cancel_left]
  have hhigh : isHighSurrogate (0xD800 + n / 0x400) = true := by
    simp only [isHighSurrogate, Bool.and_eq_true, decide_eq_true_eq]
    omega
  have hlow : isLowSurrogate (0xDC00 + n % 0x400) = true := by
    simp only [isLowSurrogate, Bool.and_eq_true, decide_eq_true_eq]
    omega
  obtain ⟨w, x, y, z, hhex, hunit⟩ := exists_hex (show 0xD800 + n / 0x400 < 0x10000 by omega)
  obtain ⟨w', x', y', z', hhex', hunit'⟩ := exists_hex (show 0xDC00 + n % 0x400 < 0x10000 by omega)
  obtain ⟨e, rest, rfl⟩ := List.exists_cons_of_ne_nil hrest
  rw [unitEscape, hhex, hhex']
  show readUnit (w :: x :: y :: z :: '\\' :: 'u' :: w' :: x' :: y' :: z' :: e :: rest) = _
  simp only [readUnit, hunit, hhigh, joinSurrogate?, hunit', hlow, if_true,
    Nat.add_sub_cancel_left, hchar]

theorem readEscape_unit (cs : List Char) : readEscape ('u' :: cs) = readUnit cs := rfl

theorem exists_charEscape (c : Char) {rest : List Char} (hrest : rest ≠ []) :
    ∃ cs, charEscape c ++ rest = '\\' :: cs ∧ readEscape cs = .ok (.char c, rest) := by
  by_cases h : c.toNat < 0x10000
  · refine ⟨'u' :: (Text.hex 4 c.toNat ++ rest), ?_, ?_⟩
    · simp only [charEscape, if_pos h, unitEscape, List.cons_append]
    · rw [readEscape_unit, readUnit_of_lt h hrest]
  · refine ⟨'u' :: (Text.hex 4 (0xD800 + (c.toNat - 0x10000) / 0x400) ++
      (unitEscape (0xDC00 + (c.toNat - 0x10000) % 0x400) ++ rest)), ?_, ?_⟩
    · simp only [charEscape, if_neg h, unitEscape, List.cons_append, List.append_assoc]
    · rw [readEscape_unit, readUnit_of_le (Nat.le_of_not_lt h) hrest]

/-! ### Texts -/

/-- One character is read back, be it escaped or not. -/
theorem readText_printChar (layout : Layout) (c : Char) (read : CodePoints) {rest : List Char}
    (hrest : rest ≠ []) :
    readText read (printChar layout c ++ rest) = readText (.char c :: read) rest := by
  have hescape : ∀ cs, readEscape cs = .ok (.char c, rest) →
      readText read ('\\' :: cs) = readText (.char c :: read) rest := fun _ => readText_escape
  unfold printChar
  split
  all_goals try exact hescape _ rfl
  next hquote hslash _ _ _ _ _ =>
  split
  · obtain ⟨cs, heq, hread⟩ := exists_charEscape c hrest
    rw [heq]
    exact hescape cs hread
  · next hplain =>
    apply readText_plain hquote hslash
    have hcontrol : ¬ c.toNat < 0x20 := by
      intro hlt
      simp only [hlt, decide_true, Bool.true_or, not_true_eq_false] at hplain
    omega

/-- The code points of a text without halves are read back, up to the closing quote. -/
theorem readText_printPoints (layout : Layout) {t : CodePoints} (ht : t.isWhole)
    (read : CodePoints) (rest : List Char) :
    readText read (t.flatMap (printPoint layout) ++ '"' :: rest) =
      .ok (read.reverse ++ t, rest) := by
  induction t generalizing read with
  | nil =>
      rw [List.append_nil]
      exact readText_quote read rest
  | cons p t ih =>
      obtain ⟨hp, ht⟩ := CodePoints.isWhole_cons.1 ht
      obtain ⟨c, rfl⟩ := CodePoint.isChar_iff.1 hp
      have hrest : t.flatMap (printPoint layout) ++ '"' :: rest ≠ [] :=
        List.append_ne_nil_of_right_ne_nil _ (List.cons_ne_nil _ _)
      rw [List.flatMap_cons, List.append_assoc, printPoint, readText_printChar layout c read hrest,
        ih ht, List.reverse_cons, List.append_assoc, List.singleton_append]

/-- What a printed text is after its opening quote. -/
theorem exists_printText (layout : Layout) {t : CodePoints} (ht : t.isWhole) (rest : List Char) :
    ∃ cs, printText layout t ++ rest = '"' :: cs ∧ readText [] cs = .ok (t, rest) := by
  refine ⟨t.flatMap (printPoint layout) ++ '"' :: rest, ?_, ?_⟩
  · simp only [printText, List.cons_append, List.append_assoc, List.nil_append]
  · rw [readText_printPoints layout ht, List.reverse_nil, List.nil_append]

/-! ### Texts in ASCII -/

/-- All the characters are ASCII. -/
def IsAscii (cs : List Char) : Prop := ∀ c ∈ cs, c.toNat < 0x80

theorem IsAscii.append {cs ds : List Char} (hcs : IsAscii cs) (hds : IsAscii ds) :
    IsAscii (cs ++ ds) := by
  intro c hc
  exact (List.mem_append.1 hc).elim (hcs c) (hds c)

theorem digitValue?_of_isAsciiDigit {d : Char} (h : Text.isAsciiDigit d = true) :
    Text.digitValue? d = some (d.toNat - '0'.toNat) := by
  simp only [Text.isAsciiDigit, Bool.and_eq_true, decide_eq_true_eq, Char.le_def,
    UInt32.le_iff_toNat_le] at h
  have hlow : 48 ≤ d.toNat := h.1
  have hhigh : d.toNat ≤ 57 := h.2
  have hascii : d.toNat < 0x0660 := by omega
  simp only [Text.digitValue?, hascii, hlow, hhigh, decide_true, Bool.and_true, if_true]
  rfl

theorem digitsValue_eq {ds : List Char} (h : IsDigits ds) (value : Nat) :
    ds.foldl (fun value d => 10 * value + (Text.digitValue? d).getD 0) value =
      Nat.ofDigitChars 10 ds value := by
  induction ds generalizing value with
  | nil => rfl
  | cons d ds ih =>
      rw [List.foldl_cons, digitValue?_of_isAsciiDigit (h d (.head _)), Option.getD_some,
        ih fun c hc => h c (.tail _ hc), Nat.ofDigitChars_cons]

end CurlWarden.Json
