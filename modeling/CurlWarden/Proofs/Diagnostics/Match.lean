import CurlWarden.Proofs.Diagnostics.Extraction
import CurlWarden.Proofs.Text.Lines

/-!
# The text that a pattern matches

`Pattern.Fits` speaks of all that is left of a stream. Here this is taken apart, into the text that
is matched (`Pattern.Matches`) and what follows it. Of what follows only the first character counts,
and only for the run at the end of the pattern, which must not go on there (`Pattern.Stops`).

* `Pattern.fits_iff` — a pattern fits where it matches and then stops.
* `Pattern.Fits.append`, `Pattern.Fits.of_append` — what fits at the end of a line, fits whatever
  the next lines are; and what fits because of them is broken at the end of the line.
* `Pattern.Matches.isOneLine` — what is matched stands on one line, unless it is a status line,
  which may be broken in front of its code.
* `supplies_iff_of_nodup` — of rules for different fields, each supplies its own.
-/

namespace CurlWarden.Diagnostics

open Text (IsOneLine)

/-! ### Runs without what follows them -/

/-- One character or more, all of a class. -/
structure Fills (isIn : Char → Bool) (run : List Char) : Prop where
  ne_nil : run ≠ []
  mem : ∀ c ∈ run, isIn c = true

/-- No character is in both classes. -/
def Apart (isIn isIn' : Char → Bool) : Prop := ∀ c, isIn c = true → isIn' c = false

section
variable {isIn isIn' : Char → Bool} {run next rest : List Char} {c : Char}

theorem Apart.symm (h : Apart isIn isIn') : Apart isIn' isIn := by
  intro c hc
  apply Bool.eq_false_iff.2
  intro hin
  rw [h c hin] at hc
  cases hc

theorem isRun_iff : IsRun isIn run rest ↔ Fills isIn run ∧ ∀ c ∈ rest.head?, isIn c = false :=
  ⟨fun h => ⟨⟨h.ne_nil, h.mem⟩, h.stop⟩, fun h => ⟨h.1.ne_nil, h.1.mem, h.2⟩⟩

theorem Fills.isRun_cons (h : Fills isIn run) (hc : isIn c = false) (rest : List Char) :
    IsRun isIn run (c :: rest) := by
  refine isRun_iff.2 ⟨h, ?_⟩
  rintro d ⟨⟩
  exact hc

/-- A run ends where one of another class begins. -/
theorem Fills.isRun (h : Fills isIn run) (hnext : Fills isIn' next) (hapart : Apart isIn' isIn)
    (rest : List Char) : IsRun isIn run (next ++ rest) := by
  obtain ⟨c, next, rfl⟩ := List.exists_cons_of_ne_nil hnext.ne_nil
  exact h.isRun_cons (hapart c (hnext.mem c (.head _))) _

/-- A run after a fixed text, without what follows it. -/
theorem exists_isRun_iff {here mark : List Char} :
    (∃ rest, here = mark ++ (run ++ rest) ∧ IsRun isIn run rest) ↔
      ∃ matched rest, here = matched ++ rest ∧ (matched = mark ++ run ∧ Fills isIn run) ∧
        ∀ c ∈ rest.head?, isIn c = false := by
  constructor
  · rintro ⟨rest, rfl, hrun⟩
    obtain ⟨hfills, hstop⟩ := isRun_iff.1 hrun
    exact ⟨_, rest, (List.append_assoc _ _ _).symm, ⟨rfl, hfills⟩, hstop⟩
  · rintro ⟨_, rest, rfl, ⟨rfl, hfills⟩, hstop⟩
    exact ⟨rest, List.append_assoc _ _ _, isRun_iff.2 ⟨hfills, hstop⟩⟩

theorem isOneLine_iff {cs : List Char} : IsOneLine cs ↔ ∀ c ∈ cs, isLineEnd c = false := by
  simp [IsOneLine, isLineEnd]

theorem Fills.isOneLine (h : Fills isIn run) (hapart : Apart isIn isLineEnd) : IsOneLine run :=
  isOneLine_iff.2 fun c hc => hapart c (h.mem c hc)

end

theorem apart_lineEnd_digit : Apart isLineEnd Text.isDigit := by
  intro c hc
  have hend : c = '\r' ∨ c = '\n' := by simpa [isLineEnd] using hc
  rcases hend with rfl | rfl
  · decide
  · decide

theorem apart_blank_digit : Apart Text.isBlank Text.isDigit :=
  fun _ => isDigit_eq_false_of_isBlank

theorem apart_rest_lineEnd : Apart (!isLineEnd ·) isLineEnd := by
  intro c hc
  simpa using hc

namespace Pattern

variable {pattern : Pattern} {here matched captured rest : List Char}

/-! ### Matches -/

/-- The pattern matches the text from its start to its end, and this is what it captures of it. -/
def Matches : Pattern → (matched captured : List Char) → Prop
  | .status, matched, captured => ∃ major minor blanks,
      matched = "< HTTP/".toList ++ (major ++ (minor ++ (blanks ++ captured))) ∧
      Fills Text.isDigit major ∧
      (minor = [] ∨ ∃ digits, minor = '.' :: digits ∧ Fills Text.isDigit digits) ∧
      Fills Text.isBlank blanks ∧ Fills Text.isDigit captured
  | .header name, matched, captured =>
      matched = ("< " ++ name ++ ": ").toList ++ captured ∧ Fills (!isLineEnd ·) captured
  | .length, matched, captured =>
      matched = "< Content-Length: ".toList ++ captured ∧ Fills Text.isDigit captured
  | .duration, matched, captured => ∃ whole fraction,
      matched = whole ++ '.' :: (fraction ++ " secs".toList) ∧
      Fills Text.isDigit whole ∧ Fills Text.isDigit fraction ∧ captured = whole ++ '.' :: fraction
  | .failure, matched, captured => ∃ digits,
      matched = "curl: (".toList ++ (digits ++ (") ".toList ++ captured)) ∧
      Fills Text.isDigit digits ∧ Fills (!isLineEnd ·) captured

/-- The class of the run with which the pattern ends; nothing is in it if there is none. -/
def lastClass : Pattern → Char → Bool
  | .status | .length => Text.isDigit
  | .header _ | .failure => (!isLineEnd ·)
  | .duration => fun _ => false

/-- The run with which the pattern ends does not go on in the text. -/
def Stops (pattern : Pattern) (rest : List Char) : Prop :=
  ∀ c ∈ rest.head?, pattern.lastClass c = false

/-- A pattern fits where it matches and then stops. -/
theorem fits_iff : pattern.Fits here captured ↔
    ∃ matched rest, here = matched ++ rest ∧ pattern.Matches matched captured ∧
      pattern.Stops rest := by
  cases pattern with
  | status =>
      constructor
      · rintro ⟨major, minor, blanks, rest, rfl, hmajor, hminor, hblanks, hcode⟩
        obtain ⟨hcaptured, hstop⟩ := isRun_iff.1 hcode
        refine ⟨_, rest, ?_, ⟨major, minor, blanks, rfl, (isRun_iff.1 hmajor).1, ?_,
          (isRun_iff.1 hblanks).1, hcaptured⟩, hstop⟩
        · simp only [List.append_assoc]
        · exact hminor.imp_right fun ⟨digits, hdigits, hrun⟩ =>
            ⟨digits, hdigits, (isRun_iff.1 hrun).1⟩
      · rintro ⟨_, rest, rfl, ⟨major, minor, blanks, rfl, hmajor, hminor, hblanks, hcode⟩, hstop⟩
        have hversion : ∀ run, Fills Text.isDigit run →
            IsRun Text.isDigit run (blanks ++ (captured ++ rest)) := fun _ hrun =>
          hrun.isRun hblanks apart_blank_digit _
        refine ⟨major, minor, blanks, rest, by simp only [List.append_assoc], ?_, ?_,
          hblanks.isRun hcode apart_blank_digit.symm _, isRun_iff.2 ⟨hcode, hstop⟩⟩
        · rcases hminor with rfl | ⟨digits, rfl, -⟩
          · exact hversion major hmajor
          · exact hmajor.isRun_cons (by decide) _
        · exact hminor.imp_right fun ⟨digits, hdigits, hrun⟩ => ⟨digits, hdigits, hversion _ hrun⟩
  | header name => exact exists_isRun_iff
  | length => exact exists_isRun_iff
  | duration =>
      constructor
      · rintro ⟨whole, fraction, rest, rfl, hwhole, hfraction, hcaptured⟩
        refine ⟨_, rest, ?_, ⟨whole, fraction, rfl, (isRun_iff.1 hwhole).1,
          (isRun_iff.1 hfraction).1, hcaptured⟩, fun _ _ => rfl⟩
        simp only [List.append_assoc, List.cons_append]
      · rintro ⟨_, rest, rfl, ⟨whole, fraction, rfl, hwhole, hfraction, hcaptured⟩, -⟩
        refine ⟨whole, fraction, rest, ?_, hwhole.isRun_cons (by decide) _,
          hfraction.isRun_cons (by decide) _, hcaptured⟩
        simp only [List.append_assoc, List.cons_append]
  | failure =>
      constructor
      · rintro ⟨digits, rest, rfl, hdigits, hrun⟩
        obtain ⟨hcaptured, hstop⟩ := isRun_iff.1 hrun
        refine ⟨_, rest, ?_, ⟨digits, rfl, (isRun_iff.1 hdigits).1, hcaptured⟩, hstop⟩
        simp only [List.append_assoc]
      · rintro ⟨_, rest, rfl, ⟨digits, rfl, hdigits, hcaptured⟩, hstop⟩
        refine ⟨digits, rest, ?_, hdigits.isRun_cons (by decide) _,
          isRun_iff.2 ⟨hcaptured, hstop⟩⟩
        simp only [List.append_assoc]

/-- At the end of a line every pattern stops. -/
theorem stops_of_head? (h : ∀ c ∈ rest.head?, isLineEnd c = true) : pattern.Stops rest := by
  intro c hc
  cases pattern with
  | status => exact apart_lineEnd_digit c (h c hc)
  | header name => exact apart_rest_lineEnd.symm c (h c hc)
  | length => exact apart_lineEnd_digit c (h c hc)
  | duration => rfl
  | failure => exact apart_rest_lineEnd.symm c (h c hc)

/-- A pattern that stops also stops if the text ends earlier. -/
theorem Stops.of_append {more : List Char} (h : pattern.Stops (rest ++ more)) :
    pattern.Stops rest := by
  intro c hc
  obtain ⟨rest, rfl⟩ := List.head?_eq_some_iff.1 hc
  exact h c rfl

/-- What fits at the end of a line, fits whatever the next lines are. -/
theorem Fits.append {more : List Char} (h : pattern.Fits here captured)
    (hmore : ∀ c ∈ more.head?, isLineEnd c = true) : pattern.Fits (here ++ more) captured := by
  obtain ⟨matched, rest, rfl, hmatch, hstop⟩ := fits_iff.1 h
  refine fits_iff.2 ⟨matched, rest ++ more, List.append_assoc _ _ _, hmatch, ?_⟩
  cases rest with
  | nil => exact stops_of_head? hmore
  | cons c rest => exact hstop

/-- What fits across the end of a line fits within it, or is broken there. -/
theorem Fits.of_append {more : List Char} (h : pattern.Fits (here ++ more) captured)
    (hmore : ∀ c ∈ more.head?, isLineEnd c = true) :
    pattern.Fits here captured ∨ ∃ c beyond, isLineEnd c = true ∧
      pattern.Matches (here ++ c :: beyond) captured ∧ c :: beyond <+: more := by
  obtain ⟨matched, rest, hsplit, hmatch, hstop⟩ := fits_iff.1 h
  rcases List.append_eq_append_iff.1 hsplit with ⟨beyond, rfl, rfl⟩ | ⟨left, rfl, rfl⟩
  · cases beyond with
    | nil =>
        rw [List.append_nil] at hmatch
        exact .inl (fits_iff.2 ⟨here, [], (List.append_nil _).symm, hmatch, nofun⟩)
    | cons c beyond => exact .inr ⟨c, beyond, hmore c rfl, hmatch, List.prefix_append _ _⟩
  · exact .inl (fits_iff.2 ⟨matched, left, rfl, hmatch, hstop.of_append⟩)

/-! ### Matches and lines -/

/-- What is matched stands on one line, if the mark of the pattern does and it is no status line. -/
theorem Matches.isOneLine (h : pattern.Matches matched captured) (hmark : IsOneLine pattern.mark)
    (hpattern : pattern ≠ .status) : IsOneLine matched := by
  have hdigits : ∀ {run}, Fills Text.isDigit run → IsOneLine run := fun hrun =>
    hrun.isOneLine apart_lineEnd_digit.symm
  have hrest : ∀ {run}, Fills (!isLineEnd ·) run → IsOneLine run := fun hrun =>
    hrun.isOneLine apart_rest_lineEnd
  cases pattern with
  | status => exact absurd rfl hpattern
  | header name =>
      obtain ⟨rfl, hcaptured⟩ := h
      exact Text.isOneLine_append.2 ⟨hmark, hrest hcaptured⟩
  | length =>
      obtain ⟨rfl, hcaptured⟩ := h
      exact Text.isOneLine_append.2 ⟨hmark, hdigits hcaptured⟩
  | duration =>
      obtain ⟨whole, fraction, rfl, hwhole, hfraction, -⟩ := h
      simp only [Text.isOneLine_append, Text.isOneLine_cons]
      exact ⟨hdigits hwhole, by decide, hdigits hfraction, by decide⟩
  | failure =>
      obtain ⟨digits, rfl, hdigit, hcaptured⟩ := h
      simp only [Text.isOneLine_append]
      exact ⟨hmark, hdigits hdigit, by decide, hrest hcaptured⟩

theorem Matches.eq_status (h : pattern.Matches matched captured) (hmark : IsOneLine pattern.mark)
    {c : Char} (hc : isLineEnd c = true) (hmem : c ∈ matched) : pattern = .status := by
  apply Classical.byContradiction
  intro hpattern
  have hnot := isOneLine_iff.1 (h.isOneLine hmark hpattern) c hmem
  rw [hc] at hnot
  cases hnot

/-- A status line has no other mark after its own. -/
theorem Matches.exists_status (h : Pattern.status.Matches matched captured) :
    ∃ more, matched = '<' :: more ∧ '<' ∉ more := by
  obtain ⟨major, minor, blanks, rfl, hmajor, hminor, hblanks, hcode⟩ := h
  have hdigits : ∀ {run}, Fills Text.isDigit run → '<' ∉ run := fun hrun hmem =>
    absurd (hrun.mem _ hmem) (by decide)
  have hblank : '<' ∉ blanks := fun hmem => absurd (hblanks.mem _ hmem) (by decide)
  refine ⟨" HTTP/".toList ++ (major ++ (minor ++ (blanks ++ captured))), rfl, ?_⟩
  have hversion : '<' ∉ minor := by
    rcases hminor with rfl | ⟨digits, rfl, hrun⟩
    · exact List.not_mem_nil
    · simpa using hdigits hrun
  simp [hdigits hmajor, hversion, hblank, hdigits hcode]

end Pattern

/-! ### Rules for different fields -/

section
variable {rules : List Rule} {stream : List Char} {field : Field} {datum : Datum}

/-- Of rules for different fields, each supplies its own. -/
theorem supplies_iff_of_nodup (h : (rules.map (·.field)).Nodup) :
    Supplies rules stream field datum ↔ ∃ rule ∈ rules, rule.field = field.name ∧
      ∃ captured, rule.pattern.Finds stream captured ∧ rule.pattern.datum captured = .ok datum := by
  constructor
  · rintro ⟨before, rule, after, captured, rfl, hfield, hfinds, hdatum, -⟩
    exact ⟨rule, by simp, hfield, captured, hfinds, hdatum⟩
  · rintro ⟨rule, hrule, hfield, captured, hfinds, hdatum⟩
    obtain ⟨before, after, rfl⟩ := List.append_of_mem hrule
    refine ⟨before, rule, after, captured, rfl, hfield, hfinds, hdatum, ?_⟩
    intro other hother hsame
    -- A later rule for the field would stand for it twice.
    rw [List.map_append, List.map_cons] at h
    have hnotin := (List.nodup_cons.1 (List.nodup_append.1 h).2.1).1
    exact absurd (List.mem_map.2 ⟨other, hother, hsame.trans hfield.symm⟩) hnotin

namespace RuleSet

theorem standard_nodup (stream : List Char) :
    ((standard.rules ++ standard.errorRules stream).map (·.field)).Nodup := by
  have hstandard : (standard.rules.map (·.field) ++ [Field.error.name]).Nodup := by decide
  rw [List.map_append]
  refine hstandard.sublist (List.Sublist.append_left ?_ _)
  by_cases hmarked : standard.IsMarked stream
  · rw [errorRules_of_isMarked hmarked]
    exact .refl _
  · rw [errorRules_of_not_isMarked (.inr rfl) hmarked]
    exact List.nil_sublist _

theorem isOneLine_mark {rule : Rule} (h : rule ∈ standard.rules) : IsOneLine rule.pattern.mark := by
  revert rule
  decide

/-- By the standard rules, a field holds what the pattern for it is found to capture. -/
theorem get?_standard_read_iff {stream : String} {m : Metadata}
    (h : (standard.read stream).metadata = .ok m) :
    m.get? field = some datum ↔
      ∃ rule ∈ standard.rules ++ standard.errorRules stream.toList, rule.field = field.name ∧
        ∃ captured, rule.pattern.Finds stream.toList captured ∧
          rule.pattern.datum captured = .ok datum := by
  rw [get?_read_iff h, supplies_iff_of_nodup (standard_nodup _)]

/-- A short stream can be read, since it has no room for too many digits. -/
theorem exists_standard_read (stream : String) (h : stream.toList.length ≤ Json.maxDigits) :
    ∃ m, (standard.read stream).metadata = .ok m := by
  apply exists_read standard_isKnown _ (.inr rfl)
  rintro rule - count ⟨-, hlong, digits, hsearch, rfl⟩
  have hlength := (Pattern.search?_eq_some_iff.1 hsearch).length_le
  omega

end RuleSet

end

end CurlWarden.Diagnostics
