import CurlWarden.Proofs.Text.Split
import CurlWarden.Text.Blank
import Mathlib.Data.List.DropRight

/-!
# Trimmed texts

Trimming takes blanks from the ends of a text and nothing else (`trim_sublist`). It stops at a
character that is no blank, whatever stands beyond it, so each side of such a character is trimmed
at its own end (`trim_append_cons`). And it does not matter whether one of the ends has been trimmed
before (`trim_trimStart`, `trim_trimEnd`). Without the word: it gives the one text between blanks
that neither starts nor ends with one (`trim_eq_iff`).
-/

namespace CurlWarden.Text

variable {c : Char} {head rest cs text : List Char}

/-! ### Trimming around a character -/

theorem trimStart_append_cons (hc : isBlank c = false) :
    trimStart (head ++ c :: rest) = trimStart head ++ c :: rest :=
  dropWhile_append_cons hc

theorem trimEnd_append_cons (hc : isBlank c = false) :
    trimEnd (head ++ c :: rest) = head ++ c :: trimEnd rest := by
  have hreverse : (head ++ c :: rest).reverse = rest.reverse ++ c :: head.reverse := by simp
  rw [trimEnd, hreverse, dropWhile_append_cons hc]
  simp [trimEnd]

theorem trim_append_cons (hc : isBlank c = false) :
    trim (head ++ c :: rest) = trimStart head ++ c :: trimEnd rest := by
  rw [trim, trimStart_append_cons hc, trimEnd_append_cons hc]

theorem trimEnd_of_isBlank (h : ∀ c ∈ cs, isBlank c = true) : trimEnd cs = [] := by
  rw [trimEnd, List.dropWhile_eq_nil_iff.2 fun c hc => h c (List.mem_reverse.1 hc),
    List.reverse_nil]

/-! ### What trimming leaves -/

theorem trim_sublist (cs : List Char) : (trim cs).Sublist cs := by
  have hend : ∀ ds : List Char, (trimEnd ds).Sublist ds := fun ds => by
    simpa [trimEnd] using (List.dropWhile_sublist isBlank (l := ds.reverse)).reverse
  exact (hend _).trans (List.dropWhile_sublist _)

theorem trim_trimStart (cs : List Char) : trim (trimStart cs) = trim cs :=
  congrArg trimEnd (List.dropWhile_idempotent isBlank cs)

theorem trimEnd_trimEnd (cs : List Char) : trimEnd (trimEnd cs) = trimEnd cs := by
  simp [trimEnd, List.dropWhile_idempotent]

theorem trim_trimEnd (cs : List Char) : trim (trimEnd cs) = trim cs := by
  by_cases h : ∀ c ∈ cs, isBlank c = true
  · have hstart : trimStart cs = [] := List.dropWhile_eq_nil_iff.2 h
    rw [trimEnd_of_isBlank h, trim, trim, hstart]
    rfl
  · obtain ⟨c, hmem, hc⟩ : ∃ c ∈ cs, isBlank c = false := by simpa using h
    obtain ⟨head, rest, rfl⟩ := List.append_of_mem hmem
    rw [trimEnd_append_cons hc, trim_append_cons hc, trim_append_cons hc, trimEnd_trimEnd]

/-! ### What trimming is -/

theorem exists_eq_trimEnd_append (cs : List Char) :
    ∃ gap, cs = trimEnd cs ++ gap ∧ ∀ c ∈ gap, isBlank c = true := by
  refine ⟨(cs.reverse.takeWhile isBlank).reverse, ?_, fun c hc => ?_⟩
  · rw [trimEnd, ← List.reverse_append, List.takeWhile_append_dropWhile, List.reverse_reverse]
  · exact List.all_eq_true.1 List.all_takeWhile c (List.mem_reverse.1 hc)

/-- Trimming takes away blanks at the two ends. -/
theorem exists_eq_append_trim (cs : List Char) : ∃ lead gap, cs = lead ++ (trim cs ++ gap) ∧
    (∀ c ∈ lead, isBlank c = true) ∧ ∀ c ∈ gap, isBlank c = true := by
  obtain ⟨gap, heq, hgap⟩ := exists_eq_trimEnd_append (trimStart cs)
  refine ⟨cs.takeWhile isBlank, gap, ?_, fun c => List.all_eq_true.1 List.all_takeWhile c, hgap⟩
  rw [trim, ← heq, trimStart, List.takeWhile_append_dropWhile]

/-- The text is what stands between the blanks at the two ends. -/
structure Trims (cs text : List Char) : Prop where
  parts : ∃ lead gap, cs = lead ++ (text ++ gap) ∧ (∀ c ∈ lead, isBlank c = true) ∧
    ∀ c ∈ gap, isBlank c = true
  head : ∀ c ∈ text.head?, isBlank c = false
  last : ∀ c ∈ text.getLast?, isBlank c = false

theorem isBlank_of_mem_head?_dropWhile (h : c ∈ (cs.dropWhile isBlank).head?) :
    isBlank c = false := by
  have hstop := List.head?_dropWhile_not isBlank cs
  rw [Option.mem_def.1 h] at hstop
  exact hstop

theorem trim_eq_iff : trim cs = text ↔ Trims cs text := by
  constructor
  · rintro rfl
    refine ⟨exists_eq_append_trim cs, fun c hc => ?_, fun c hc => ?_⟩
    · obtain ⟨gap, heq, -⟩ := exists_eq_trimEnd_append (trimStart cs)
      rw [trim] at hc
      have hhead : c ∈ (trimStart cs).head? := by
        rw [heq, List.head?_append, Option.mem_def.1 hc]
        rfl
      exact isBlank_of_mem_head?_dropWhile hhead
    · rw [trim, trimEnd, List.getLast?_reverse] at hc
      exact isBlank_of_mem_head?_dropWhile hc
  · rintro ⟨⟨lead, gap, rfl, hlead, hgap⟩, hhead, hlast⟩
    have hstart : trimStart (lead ++ (text ++ gap)) = trimStart (text ++ gap) :=
      List.dropWhile_append_of_pos hlead
    rcases text.eq_nil_or_concat with rfl | ⟨init, d, rfl⟩
    · have hnil : trimStart gap = [] := List.dropWhile_eq_nil_iff.2 hgap
      rw [trim, hstart, List.nil_append, hnil]
      rfl
    · have hd : isBlank d = false := hlast d (by simp)
      have hkept : trimStart (init ++ d :: gap) = init ++ d :: gap := by
        cases init with
        | nil => exact List.dropWhile_cons_of_neg (by simp [hd])
        | cons c init => exact List.dropWhile_cons_of_neg (by simp [hhead c rfl])
      rw [trim, hstart, List.concat_eq_append, List.append_assoc, List.singleton_append, hkept,
         trimEnd_append_cons hd,
        trimEnd_of_isBlank hgap]

end CurlWarden.Text
