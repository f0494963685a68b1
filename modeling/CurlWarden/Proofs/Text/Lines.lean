import CurlWarden.Log
import CurlWarden.Number.Shortest
import CurlWarden.Text.Quoted
import Mathlib.Data.List.Flatten

/-!
# Texts of one line

A log is read line by line, so what is written into it should not hold line breaks. Numbers in
decimal, numbers with a fraction, and quoted texts never do (`isOneLine_toString`,
`Binary64.isOneLine_full`, `isOneLine_quoted`), whatever the number or the text. A record takes up
one line exactly if its message does and no exception is shown below it
(`Log.Record.isOneLine_text_iff`).
-/

namespace CurlWarden

namespace Text

/-- Neither a carriage return nor a line feed stands in the text. -/
def IsOneLine (cs : List Char) : Prop := ∀ c ∈ cs, c ≠ '\r' ∧ c ≠ '\n'

instance (cs : List Char) : Decidable (IsOneLine cs) :=
  List.decidableBAll (fun c => c ≠ '\r' ∧ c ≠ '\n') cs

section
variable {cs ds : List Char} {c : Char}

@[simp] theorem isOneLine_nil : IsOneLine [] := nofun

@[simp] theorem isOneLine_cons : IsOneLine (c :: cs) ↔ (c ≠ '\r' ∧ c ≠ '\n') ∧ IsOneLine cs :=
  List.forall_mem_cons

@[simp] theorem isOneLine_append : IsOneLine (cs ++ ds) ↔ IsOneLine cs ∧ IsOneLine ds :=
  List.forall_mem_append

theorem isOneLine_toList_append {s t : String} :
    IsOneLine (s ++ t).toList ↔ IsOneLine s.toList ∧ IsOneLine t.toList := by
  rw [String.toList_append, isOneLine_append]

theorem IsOneLine.subset (h : IsOneLine cs) (hsub : ds ⊆ cs) : IsOneLine ds :=
  fun c hc => h c (hsub hc)

theorem isOneLine_replicate {n : Nat} (hc : c ≠ '\r' ∧ c ≠ '\n') :
    IsOneLine (List.replicate n c) := by
  intro d hd
  rw [List.eq_of_mem_replicate hd]
  exact hc

theorem isOneLine_flatMap {α : Type} {xs : List α} {f : α → List Char}
    (h : ∀ x ∈ xs, IsOneLine (f x)) : IsOneLine (xs.flatMap f) := by
  intro c hc
  obtain ⟨x, hx, hcx⟩ := List.mem_flatMap.1 hc
  exact h x hx c hcx

/-! ### Numbers -/

theorem isOneLine_of_isDigit (h : ∀ c ∈ cs, c.isDigit = true) : IsOneLine cs := by
  intro c hc
  have hdigit := h c hc
  constructor <;> rintro rfl <;> revert hdigit <;> decide

theorem isOneLine_decimal (n : Nat) : IsOneLine (decimal n) :=
  isOneLine_of_isDigit fun _ hc => Nat.isDigit_of_mem_toDigits (by decide) (by decide) hc

theorem isOneLine_toString (n : Nat) : IsOneLine (toString n).toList := by
  have h : (toString n).toList = decimal n := by simp [decimal]
  rw [h]
  exact isOneLine_decimal n

theorem isOneLine_toString_int (n : Int) : IsOneLine (toString n).toList := by
  cases n with
  | ofNat n => exact isOneLine_toString n
  | negSucc n =>
      have h : (toString (Int.negSucc n)).toList = '-' :: (toString (n + 1)).toList := by
        simp [toString, Int.repr]
      rw [h]
      exact isOneLine_cons.2 ⟨by decide, isOneLine_toString _⟩

/-! ### Quoted texts -/

theorem isOneLine_hexDigit {n : Nat} (h : n < 16) : IsOneLine [hexDigit n] := by
  have table : ∀ n < 16, IsOneLine [hexDigit n] := by decide
  exact table n h

theorem isOneLine_hex (width n : Nat) : IsOneLine (hex width n) := by
  intro c hc
  obtain ⟨place, -, rfl⟩ := List.mem_map.1 hc
  exact isOneLine_hexDigit (Nat.mod_lt _ (by decide)) _ (.head _)

/-- Every line break is escaped, and no escape holds one. -/
theorem isOneLine_quotedChar {quote : Char} (hquote : IsOneLine [quote]) (c : Char) :
    IsOneLine (quotedChar quote c) := by
  unfold quotedChar
  split
  · next h =>
    have hc : IsOneLine [c] := by
      rcases Bool.or_eq_true_iff.1 h with h | h
      · rwa [eq_of_beq h]
      · rw [eq_of_beq h]
        decide
    exact isOneLine_cons.2 ⟨by decide, hc⟩
  split
  · decide
  split
  · decide
  split
  · decide
  split
  · next hfeed hreturn _ _ =>
    exact isOneLine_cons.2 ⟨⟨by simpa using hreturn, by simpa using hfeed⟩, isOneLine_nil⟩
  split
  · exact isOneLine_cons.2 ⟨by decide, isOneLine_cons.2 ⟨by decide, isOneLine_hex _ _⟩⟩
  split
  · exact isOneLine_cons.2 ⟨by decide, isOneLine_cons.2 ⟨by decide, isOneLine_hex _ _⟩⟩
  · exact isOneLine_cons.2 ⟨by decide, isOneLine_cons.2 ⟨by decide, isOneLine_hex _ _⟩⟩

theorem isOneLine_quoteFor (cs : List Char) : IsOneLine [quoteFor cs] := by
  unfold quoteFor
  split <;> decide

theorem isOneLine_quoted (s : String) : IsOneLine (quoted s).toList := by
  have hquote := isOneLine_quoteFor s.toList
  have hinside : IsOneLine (s.toList.flatMap (quotedChar (quoteFor s.toList))) :=
    isOneLine_flatMap fun c _ => isOneLine_quotedChar hquote c
  rw [quoted, String.toList_ofList, isOneLine_append, isOneLine_cons]
  exact ⟨⟨hquote _ (.head _), hinside⟩, hquote⟩

theorem isOneLine_intercalate {sep : List Char} {texts : List (List Char)}
    (hsep : IsOneLine sep) (h : ∀ cs ∈ texts, IsOneLine cs) :
    IsOneLine (sep.intercalate texts) := by
  induction texts with
  | nil => exact isOneLine_nil
  | cons cs texts ih =>
      obtain ⟨hcs, htexts⟩ := List.forall_mem_cons.1 h
      cases texts with
      | nil => rwa [List.intercalate_singleton]
      | cons ds texts =>
          rw [List.intercalate_cons_cons, isOneLine_append, isOneLine_append]
          exact ⟨⟨hcs, hsep⟩, ih htexts⟩

theorem isOneLine_quotedList (ss : List String) : IsOneLine (quotedList ss).toList := by
  have hinside : IsOneLine (", ".intercalate (ss.map quoted)).toList := by
    rw [String.toList_intercalate, List.map_map]
    refine isOneLine_intercalate (by decide) fun cs hcs => ?_
    obtain ⟨s, -, rfl⟩ := List.mem_map.1 hcs
    exact isOneLine_quoted s
  rw [quotedList, isOneLine_toList_append, isOneLine_toList_append]
  exact ⟨⟨by decide, hinside⟩, by decide⟩

end

end Text

/-! ### Numbers with a fraction -/

open Text (IsOneLine isOneLine_append isOneLine_cons isOneLine_nil)

/-- The digits are the decimal digits of a natural number, perhaps without the zeros at its end. -/
theorem Decimal.isOneLine_ofCount (count : Nat) (unit : Int) :
    IsOneLine (ofCount count unit).digits := by
  apply (Text.isOneLine_decimal count).subset
  intro c hc
  exact List.mem_reverse.1 ((List.dropWhile_sublist _).subset (List.mem_reverse.1 hc))

theorem Decimal.isOneLine_rounded (places num den : Nat) :
    IsOneLine (rounded places num den).digits := isOneLine_ofCount _ _

theorem Decimal.isOneLine_onGrid? {i : Interval} {places : Nat} {d : Decimal}
    (h : i.onGrid? places = some d) : IsOneLine d.digits := by
  unfold Interval.onGrid? at h
  dsimp only at h
  split at h
  · cases h
    exact isOneLine_ofCount _ _
  split at h
  · cases h
    exact isOneLine_ofCount _ _
  split at h
  · cases h
    exact isOneLine_ofCount _ _
  · cases h

theorem Decimal.isOneLine_shortest (x : Binary64) : IsOneLine (shortest x).digits := by
  unfold shortest
  dsimp only
  split
  · next d h =>
    obtain ⟨_, _, hgrid⟩ := List.exists_of_findSome?_eq_some h
    exact isOneLine_onGrid? hgrid
  · exact isOneLine_rounded _ _ _

namespace NumberFormat

/-- The fixed texts of the format are of one line. -/
structure IsOneLine (format : NumberFormat) : Prop where
  wholeMark : Text.IsOneLine format.wholeMark.toList
  notANumber : Text.IsOneLine format.notANumber.toList
  infinity : Text.IsOneLine format.infinity.toList

theorem isOneLine_exponentText (exponent : Int) : Text.IsOneLine (exponentText exponent) := by
  have hdigits := Text.isOneLine_decimal exponent.natAbs
  unfold exponentText
  dsimp only
  split <;> split <;> simp [hdigits]

theorem isOneLine_layout {format : NumberFormat} (hformat : format.IsOneLine) {d : Decimal}
    (hd : Text.IsOneLine d.digits) : Text.IsOneLine (format.layout d) := by
  have hzeros : ∀ n, Text.IsOneLine (List.replicate n '0') :=
    fun n => Text.isOneLine_replicate (by decide)
  unfold layout
  dsimp only
  split
  · split
    · rw [isOneLine_append, isOneLine_append]
      exact ⟨⟨by decide, hzeros _⟩, hd⟩
    split
    · rw [isOneLine_append, isOneLine_append]
      exact ⟨⟨hd, hzeros _⟩, hformat.wholeMark⟩
    · rw [isOneLine_append, isOneLine_cons]
      exact ⟨hd.subset (List.take_subset _ _), by decide, hd.subset (List.drop_subset _ _)⟩
  · have hexponent := isOneLine_exponentText (d.point - 1)
    split
    · exact isOneLine_nil
    · next lead hlead =>
      rw [hlead, isOneLine_cons] at hd
      exact isOneLine_cons.2 ⟨hd.1, hexponent⟩
    · next lead more _ hlead =>
      rw [hlead, isOneLine_cons] at hd
      rw [isOneLine_append, isOneLine_cons, isOneLine_cons]
      exact ⟨⟨hd.1, by decide, hd.2⟩, hexponent⟩

theorem isOneLine_render {format : NumberFormat} (hformat : format.IsOneLine)
    {choose : Binary64 → Decimal} (hchoose : ∀ x, Text.IsOneLine (choose x).digits) (x : Binary64) :
    Text.IsOneLine (format.render choose x) := by
  unfold render
  split
  · exact hformat.notANumber
  · rw [isOneLine_append]
    refine ⟨by split <;> decide, ?_⟩
    split
    · exact hformat.infinity
    split
    · exact isOneLine_cons.2 ⟨by decide, hformat.wholeMark⟩
    · exact isOneLine_layout hformat (hchoose x)

end NumberFormat

theorem Binary64.isOneLine_full (x : Binary64) : IsOneLine x.full.toList := by
  rw [full, String.toList_ofList]
  exact NumberFormat.isOneLine_render ⟨by decide, by decide, by decide⟩ Decimal.isOneLine_shortest x

theorem Binary64.isOneLine_brief (x : Binary64) : IsOneLine x.brief.toList := by
  rw [brief, String.toList_ofList]
  exact NumberFormat.isOneLine_render ⟨by decide, by decide, by decide⟩
    (fun _ => Decimal.isOneLine_rounded _ _ _) x

/-! ### Records -/

namespace Log

/-- Apart from its message, a record is of one line. -/
theorem Record.isOneLine_line_iff {time : String} (htime : IsOneLine time.toList)
    (record : Record) : IsOneLine (record.line time).toList ↔ IsOneLine record.message.toList := by
  have hlevel : IsOneLine record.level.name.toList := by cases record.level <;> decide
  have hchannel : IsOneLine record.channel.name.toList := by cases record.channel <;> decide
  have hpadding : ∀ n, IsOneLine (List.replicate n ' ') :=
    fun n => Text.isOneLine_replicate (by decide)
  simp [Record.line, htime, hlevel, hchannel, hpadding]

theorem Trace.newline_mem_lines (trace : Trace) (raised : String) :
    '\n' ∈ ("\n".intercalate (trace.lines raised)).toList := by
  obtain ⟨second, rest, heq⟩ : ∃ second rest,
      trace.lines raised = "Traceback (most recent call last):" :: second :: rest := by
    unfold lines
    cases trace.calls with
    | nil => exact ⟨_, _, rfl⟩
    | cons call calls => exact ⟨_, _, rfl⟩
  rw [heq, String.intercalate_cons_cons]
  simp

/-- A record is of one line as it stands in a log if its message is and it shows no exception. -/
theorem Record.isOneLine_text_iff {time : String} (htime : IsOneLine time.toList) (trace : Trace)
    (record : Record) : IsOneLine (record.text time trace).toList ↔
      IsOneLine record.message.toList ∧ record.raised = none := by
  unfold text
  cases record.raised with
  | none => simp [record.isOneLine_line_iff htime]
  | some raised =>
      simp only [reduceCtorEq, and_false, iff_false]
      intro h
      rw [Text.isOneLine_toList_append] at h
      exact (h.2 _ (trace.newline_mem_lines raised)).2 rfl

end Log

end CurlWarden
