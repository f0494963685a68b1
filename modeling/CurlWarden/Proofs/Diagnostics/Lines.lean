import CurlWarden.Proofs.Diagnostics.Match

/-!
# The lines of a diagnostic stream

A carriage return ends a line, and so does a line feed. A pattern that fits within lines only is
found in a stream exactly where it is found in the first line that has it
(`Pattern.search?_eq_findSome?_lines`), so nothing but the lines and their order counts.

Proofs go through the text line by line (`lines_induction`): it is its last line, or a line, the end
of that line and more lines.
-/

namespace CurlWarden.Diagnostics

open Text (IsOneLine)

variable {stream above line below rest : List Char} {c : Char}

/-- What stands between the line ends of a text. -/
def lines (cs : List Char) : List (List Char) := cs.splitOnP isLineEnd

theorem lines_of_isOneLine (h : IsOneLine line) : lines line = [line] := by
  apply List.splitOnP_eq_singleton
  intro c hc
  simp [isOneLine_iff.1 h c hc]

theorem lines_append_cons (hc : isLineEnd c = true) (above below : List Char) :
    lines (above ++ c :: below) = lines above ++ lines below :=
  List.splitOnP_append_cons _ _ hc

/-- A text is its last line, or a line, the end of that line and more lines. -/
theorem lines_induction {motive : List Char → Prop}
    (last : ∀ line, IsOneLine line → motive line)
    (more : ∀ line c rest, IsOneLine line → isLineEnd c = true → motive rest →
      motive (line ++ c :: rest)) (cs : List Char) : motive cs := by
  induction hlength : cs.length using Nat.strongRecOn generalizing cs with
  | _ n ih =>
    have hline : IsOneLine (cs.takeWhile (!isLineEnd ·)) := by
      apply isOneLine_iff.2
      intro c hc
      simpa using List.all_eq_true.1 List.all_takeWhile c hc
    have hsplit : cs.takeWhile (!isLineEnd ·) ++ cs.dropWhile (!isLineEnd ·) = cs :=
      List.takeWhile_append_dropWhile
    cases hrest : cs.dropWhile (!isLineEnd ·) with
    | nil =>
        rw [hrest, List.append_nil] at hsplit
        rw [← hsplit]
        exact last _ hline
    | cons c rest =>
        have hc := List.head?_dropWhile_not (!isLineEnd ·) cs
        rw [hrest] at hc hsplit
        rw [← hsplit]
        apply more _ c rest hline
        · simpa using hc
        · apply ih rest.length _ rest rfl
          rw [← hlength, ← hsplit, List.length_append, List.length_cons]
          omega

/-! ### Where a line stands -/

/-- The line stands in the text, between what is above it and what is below. -/
structure IsLine (stream above line below : List Char) : Prop where
  text : stream = above ++ (line ++ below)
  oneLine : IsOneLine line
  above : ∀ c ∈ above.getLast?, isLineEnd c = true
  below : ∀ c ∈ below.head?, isLineEnd c = true

/-- Lines of what is below a line. -/
theorem IsLine.cons {whole first : List Char} (h : IsLine rest above line below)
    (hc : isLineEnd c = true) (hsplit : whole = first ++ c :: rest) :
    IsLine whole (first ++ c :: above) line below := by
  refine ⟨by simp [hsplit, h.text], h.oneLine, ?_, h.below⟩
  intro d hd
  cases above with
  | nil =>
      obtain rfl : c = d := by simpa using hd
      exact hc
  | cons e above =>
      apply h.above
      simpa using hd

/-- Every line stands somewhere. -/
theorem exists_isLine (h : line ∈ lines stream) :
    ∃ above below, IsLine stream above line below := by
  induction stream using lines_induction with
  | last last hlast =>
      rw [lines_of_isOneLine hlast, List.mem_singleton] at h
      subst h
      exact ⟨[], [], by simp, hlast, nofun, nofun⟩
  | more first c rest hfirst hc ih =>
      rw [lines_append_cons hc, lines_of_isOneLine hfirst, List.singleton_append,
        List.mem_cons] at h
      rcases h with rfl | hmem
      · refine ⟨[], c :: rest, rfl, hfirst, nofun, ?_⟩
        rintro d ⟨⟩
        exact hc
      · obtain ⟨above, below, hline⟩ := ih hmem
        exact ⟨_, below, hline.cons hc rfl⟩

/-- The lines of a text in order, from one that stands in it. -/
theorem IsLine.exists_lines (h : IsLine stream above line below) :
    ∃ before after, lines stream = before ++ line :: after ∧
      ∀ first ∈ before, ∃ upper lower, IsLine stream upper first lower ∧
        (upper ++ first).length < above.length := by
  obtain ⟨after, hafter⟩ : ∃ after, lines (line ++ below) = line :: after := by
    cases below with
    | nil => exact ⟨[], by rw [List.append_nil, lines_of_isOneLine h.oneLine]⟩
    | cons c below =>
        refine ⟨lines below, ?_⟩
        rw [lines_append_cons (h.below c rfl), lines_of_isOneLine h.oneLine, List.singleton_append]
  rw [h.text]
  rcases List.eq_nil_or_concat above with rfl | ⟨upper, c, rfl⟩
  · exact ⟨[], after, hafter, nofun⟩
  · have hc : isLineEnd c = true := h.above c (by simp)
    refine ⟨lines upper, after, ?_, ?_⟩
    · rw [List.concat_eq_append, List.append_assoc, List.singleton_append, lines_append_cons hc,
        hafter]
    · intro first hfirst
      obtain ⟨upper, lower, hline⟩ := exists_isLine hfirst
      refine ⟨upper, lower ++ c :: (line ++ below), ⟨by simp [hline.text], hline.oneLine,
        hline.above, ?_⟩, ?_⟩
      · intro d hd
        cases lower with
        | nil =>
            obtain rfl : c = d := by simpa using hd
            exact hc
        | cons e lower => exact hline.below d hd
      · simp [hline.text]

theorem IsLine.mem_lines (h : IsLine stream above line below) : line ∈ lines stream := by
  obtain ⟨before, after, hlines, -⟩ := h.exists_lines
  rw [hlines]
  simp

/-- Every text starts with what is left of a line. -/
theorem exists_line_end (here : List Char) : ∃ left below, here = left ++ below ∧
    IsOneLine left ∧ ∀ c ∈ below.head?, isLineEnd c = true := by
  induction here using lines_induction with
  | last line hline => exact ⟨line, [], (List.append_nil _).symm, hline, nofun⟩
  | more line c rest hline hc ih =>
      refine ⟨line, c :: rest, rfl, hline, ?_⟩
      rintro d ⟨⟩
      exact hc

/-- Every place of a text lies in a line. -/
theorem exists_isLine_of_append (before here : List Char) : ∃ above start left below,
    before = above ++ start ∧ here = left ++ below ∧
      IsLine (before ++ here) above (start ++ left) below := by
  induction before using lines_induction with
  | last line hline =>
      obtain ⟨left, below, rfl, hleft, hbelow⟩ := exists_line_end here
      exact ⟨[], line, left, below, rfl, rfl, by simp, Text.isOneLine_append.2 ⟨hline, hleft⟩,
        nofun, hbelow⟩
  | more line c rest hline hc ih =>
      obtain ⟨above, start, left, below, rfl, rfl, hplace⟩ := ih
      exact ⟨line ++ c :: above, start, left, below, by simp, rfl, hplace.cons hc (by simp)⟩

/-! ### Searching line by line -/

/-- Where a matcher sees no further than the end of a line, the line is searched, then the rest. -/
theorem firstMatch_append_cons {α : Type} {matcher : List Char → Option α}
    (hnil : matcher [] = none)
    (h : ∀ here, here <:+ line → matcher (here ++ c :: rest) = matcher here) :
    Text.firstMatch matcher (line ++ c :: rest) =
      (Text.firstMatch matcher line).or (Text.firstMatch matcher rest) := by
  induction line with
  | nil =>
      have hend : matcher (c :: rest) = none := (h [] (List.suffix_refl _)).trans hnil
      have hnothing : Text.firstMatch matcher [] = none := hnil
      rw [List.nil_append, hnothing, Option.none_or, Text.firstMatch, hend]
  | cons d line ih =>
      have hhere : matcher (d :: (line ++ c :: rest)) = matcher (d :: line) :=
        h (d :: line) (List.suffix_refl _)
      rw [List.cons_append, Text.firstMatch, hhere, Text.firstMatch]
      cases matcher (d :: line) with
      | some answer => rfl
      | none => exact ih fun here hsuffix => h here (hsuffix.trans (List.suffix_cons _ _))

namespace Pattern

variable {pattern : Pattern} {here captured : List Char}

theorem not_fits_nil : ¬ pattern.Fits [] captured := by
  intro h
  obtain ⟨matched, rest, hsplit, hmatch, -⟩ := fits_iff.1 h
  obtain ⟨rfl, rfl⟩ := List.append_eq_nil_iff.1 hsplit.symm
  cases pattern with
  | status =>
      obtain ⟨tail, htail, -⟩ := hmatch.exists_status
      cases htail
  | header name => simp [Matches] at hmatch
  | length => simp [Matches] at hmatch
  | duration => simp [Matches] at hmatch
  | failure => simp [Matches] at hmatch

/-- Wherever the pattern fits, it fits within the line. -/
def IsWithinLines (pattern : Pattern) (cs : List Char) : Prop :=
  ∀ before here below captured, cs = before ++ (here ++ below) →
    (∀ c ∈ below.head?, isLineEnd c = true) → pattern.Fits (here ++ below) captured →
    pattern.Fits here captured

theorem search?_append_cons (h : pattern.IsWithinLines (line ++ c :: rest))
    (hc : isLineEnd c = true) : pattern.search? (line ++ c :: rest) =
      (pattern.search? line).or (pattern.search? rest) := by
  have hend : ∀ d ∈ (c :: rest).head?, isLineEnd d = true := by
    rintro d ⟨⟩
    exact hc
  apply firstMatch_append_cons
  · apply Option.eq_none_iff_forall_ne_some.2
    intro captured hcaptured
    exact not_fits_nil (bind_body?_eq_some_iff.1 hcaptured)
  · rintro here ⟨before, rfl⟩
    apply Option.ext
    intro captured
    rw [bind_body?_eq_some_iff, bind_body?_eq_some_iff]
    constructor
    · exact h before here (c :: rest) captured (List.append_assoc _ _ _) hend
    · exact fun hfits => hfits.append hend

/-- A pattern that fits within lines only is found in the first line that has it. -/
theorem search?_eq_findSome?_lines {cs : List Char} (h : pattern.IsWithinLines cs) :
    pattern.search? cs = (lines cs).findSome? pattern.search? := by
  induction cs using lines_induction with
  | last line hline => rw [lines_of_isOneLine hline, List.findSome?_singleton]
  | more line c rest hline hc ih =>
      have hrest : pattern.IsWithinLines rest := fun before here below captured hsplit =>
        h (line ++ c :: before) here below captured (by simp [hsplit])
      rw [lines_append_cons hc, lines_of_isOneLine hline, List.singleton_append,
        List.findSome?_cons, ← ih hrest, search?_append_cons h hc]
      cases pattern.search? line with
      | some captured => rfl
      | none => rfl

end Pattern

end CurlWarden.Diagnostics
