import CurlWarden.Proofs.Diagnostics.Lines

/-!
# Response lines and the rest of the stream

A line of the stream that echoes the response starts with `< `. The other lines echo the request or
tell of the connection, and are meant to supply no metadata. This module says what becomes of the
metadata when these lines are deleted (`IsReduct`), as they can be from every stream
(`isReduct_flatMap`).

What is left supplies exactly what is found in the response lines, taken one by one
(`Pattern.search?_of_isReduct`). The whole stream can supply something else: a mark may stand within
a line of another kind, and a status line may be broken and end in the next line. So the metadata
stay as they are exactly where the leftmost match stands in a response line, or a match elsewhere
happens to say the same (`RuleSet.standard_read_reduct_iff`). A line about the certificate of the
server is enough for it to say something else (`RuleSet.not_reduct_subject`).
-/

namespace CurlWarden.Diagnostics

open Text (IsOneLine)

/-- Does the line echo the response? -/
def isResponseLine (line : List Char) : Bool := "< ".toList.isPrefixOf line

/-- What is left of the stream when all lines are deleted that do not echo the response, whatever
becomes of the line ends around them. -/
def IsReduct (stream kept : List Char) : Prop :=
  (lines kept).filter (· ≠ []) = (lines stream).filter isResponseLine

/-- The metadata about the response. -/
def Field.ofResponse : List Field :=
  [.statusCode, .contentLength, .contentType, .server, .connection, .date, .etag, .xPoweredBy]

variable {stream kept above line below : List Char}

/-! ### What is left -/

/-- Something of a class stands right in front of something that is not, unless the class goes on to
the end. -/
theorem exists_adjacent {p : Char → Bool} {cs : List Char} (hmem : ∃ e ∈ cs, p e = true)
    (hlast : ∀ c ∈ cs.getLast?, p c = false) :
    ∃ front e c back, cs = front ++ e :: c :: back ∧ p e = true ∧ p c = false := by
  induction cs with
  | nil =>
      obtain ⟨e, he, -⟩ := hmem
      cases he
  | cons d cs ih =>
      by_cases hlater : ∃ e ∈ cs, p e = true
      · have hcs : cs ≠ [] := by
          rintro rfl
          obtain ⟨e, he, -⟩ := hlater
          cases he
        obtain ⟨front, e, c, back, rfl, he, hc⟩ := ih hlater fun c hc => hlast c (by
          rw [List.getLast?_cons_of_ne_nil hcs]
          exact hc)
        exact ⟨d :: front, e, c, back, rfl, he, hc⟩
      · have hd : p d = true := by
          obtain ⟨e, he, hp⟩ := hmem
          rcases List.mem_cons.1 he with rfl | he
          · exact hp
          · exact absurd ⟨e, he, hp⟩ hlater
        cases cs with
        | nil =>
            rw [hlast d rfl] at hd
            cases hd
        | cons c cs =>
            refine ⟨[], d, c, cs, rfl, hd, ?_⟩
            apply Bool.eq_false_iff.2
            exact fun hc => hlater ⟨c, .head _, hc⟩

namespace Pattern

variable {pattern : Pattern} {matched captured : List Char}

/-- Where a status line is broken, a line starts that has no mark. -/
theorem Matches.exists_break (h : Pattern.status.Matches matched captured)
    (hbroken : ∃ c ∈ matched, isLineEnd c = true) :
    ∃ front e c back, matched = front ++ e :: c :: back ∧ isLineEnd e = true ∧
      isLineEnd c = false ∧ c ≠ '<' := by
  have hlast : ∀ c ∈ matched.getLast?, isLineEnd c = false := by
    obtain ⟨major, minor, blanks, rfl, -, -, -, hcode⟩ := h
    intro c hc
    have hne := hcode.ne_nil
    apply apart_lineEnd_digit.symm
    apply hcode.mem
    simp only [List.getLast?_append, List.getLast?_eq_some_getLast hne, Option.some_or] at hc
    obtain rfl := Option.some.inj hc
    exact List.getLast_mem hne
  obtain ⟨front, e, c, back, hsplit, he, hc⟩ := exists_adjacent hbroken hlast
  refine ⟨front, e, c, back, hsplit, he, hc, ?_⟩
  rintro rfl
  obtain ⟨tail, htail, hnot⟩ := h.exists_status
  rw [hsplit] at htail
  cases front with
  | nil =>
      obtain ⟨-, rfl⟩ := List.cons.inj htail
      exact hnot (.head _)
  | cons d front =>
      obtain ⟨-, rfl⟩ := List.cons.inj htail
      exact hnot (by simp)

end Pattern

/-- Every stream can be reduced to its response lines. -/
theorem isReduct_flatMap (stream : List Char) :
    IsReduct stream (((lines stream).filter isResponseLine).flatMap (· ++ ['\n'])) := by
  have hlines : ∀ kept : List (List Char), (∀ line ∈ kept, IsOneLine line) →
      lines (kept.flatMap (· ++ ['\n'])) = kept ++ [[]] := by
    intro kept hkept
    induction kept with
    | nil => rfl
    | cons line kept ih =>
        obtain ⟨hline, hrest⟩ := List.forall_mem_cons.1 hkept
        rw [List.flatMap_cons, List.append_assoc, List.singleton_append,
          lines_append_cons (by decide), lines_of_isOneLine hline, ih hrest]
        rfl
  have honeLine : ∀ line ∈ (lines stream).filter isResponseLine, IsOneLine line := by
    intro line hline
    obtain ⟨above, below, hstands⟩ := exists_isLine (List.mem_filter.1 hline).1
    exact hstands.oneLine
  have hnonempty : ∀ line ∈ (lines stream).filter isResponseLine,
      decide (line ≠ []) = true := by
    intro line hline
    apply decide_eq_true
    rintro rfl
    exact absurd (List.mem_filter.1 hline).2 (by decide)
  rw [IsReduct, hlines _ honeLine, List.filter_append, List.filter_eq_self.2 hnonempty]
  exact List.append_nil _

namespace IsReduct

variable {pattern : Pattern} (h : IsReduct stream kept)
include h

theorem isResponseLine_of_mem (hline : line ∈ lines kept) (hne : line ≠ []) :
    isResponseLine line = true := by
  have hmem : line ∈ (lines kept).filter (· ≠ []) := List.mem_filter.2 ⟨hline, by simpa using hne⟩
  rw [h] at hmem
  exact (List.mem_filter.1 hmem).2

/-- No status line of what is left is broken, since all of its lines start with a mark. -/
theorem isWithinLines (hmark : IsOneLine pattern.mark) : pattern.IsWithinLines kept := by
  intro before here below captured hsplit hbelow hfits
  rcases hfits.of_append hbelow with hwithin | ⟨c, beyond, hc, hmatch, rest, rfl⟩
  · exact hwithin
  · obtain rfl : pattern = .status := hmatch.eq_status hmark hc (by simp)
    obtain ⟨front, e, d, back, hbreak, he, hd, hne⟩ := hmatch.exists_break ⟨c, by simp, hc⟩
    obtain ⟨left, under, hleft, honeLine, hunder⟩ := exists_line_end (d :: (back ++ rest))
    have htext : kept = (before ++ (front ++ [e])) ++ (left ++ under) := by
      rw [hsplit, ← hleft]
      calc
        before ++ (here ++ (c :: beyond ++ rest))
          = before ++ ((here ++ c :: beyond) ++ rest) := by simp
        _ = _ := by rw [hbreak]; simp
    have hline : IsLine kept (before ++ (front ++ [e])) left under :=
      ⟨htext, honeLine, by simpa using he, hunder⟩
    cases left with
    | nil =>
        have hend := hunder d (by rw [← List.nil_append under, ← hleft]; rfl)
        rw [hd] at hend
        cases hend
    | cons d' left =>
        obtain rfl : d = d' := (List.cons.inj hleft).1
        have hresponse := h.isResponseLine_of_mem hline.mem_lines (List.cons_ne_nil _ _)
        obtain ⟨more, hmore⟩ := List.isPrefixOf_iff_prefix.1 hresponse
        exact absurd (List.cons.inj hmore).1.symm hne

end IsReduct

/-! ### Where the metadata come from -/

namespace Pattern

variable {pattern : Pattern} {captured : List Char}

theorem Finds.unique {other : List Char} (h : pattern.Finds stream captured)
    (h' : pattern.Finds stream other) : captured = other := by
  rw [← search?_eq_some_iff] at h h'
  exact Option.some.inj (h.symm.trans h')

theorem Fits.exists_finds {before here : List Char} (h : pattern.Fits here captured)
    (hsplit : stream = before ++ here) : ∃ other, pattern.Finds stream other := by
  have hsearch : pattern.search? stream ≠ none := by
    rw [hsplit]
    exact Text.firstMatch_ne_none (bind_body?_eq_some_iff.2 h)
  obtain ⟨other, hother⟩ := Option.ne_none_iff_exists'.1 hsearch
  exact ⟨other, search?_eq_some_iff.1 hother⟩

/-- What is left supplies what is found in the first response line that has it. -/
theorem search?_of_isReduct (h : IsReduct stream kept) (hmark : IsOneLine pattern.mark) :
    pattern.search? kept = ((lines stream).filter isResponseLine).findSome? pattern.search? := by
  rw [search?_eq_findSome?_lines (h.isWithinLines hmark), ← h, Text.findSome?_filter]
  intro line _ hempty
  obtain rfl : line = [] := by simpa using hempty
  apply Option.eq_none_iff_forall_ne_some.2
  intro captured hsearch
  obtain ⟨before, here, hsplit, hfits, -⟩ := search?_eq_some_iff.1 hsearch
  obtain ⟨-, rfl⟩ := List.append_eq_nil_iff.1 hsplit.symm
  exact not_fits_nil hfits

/-- The pattern captures this in a response line, and no match begins above that line. -/
def FindsInResponse (pattern : Pattern) (stream captured : List Char) : Prop :=
  ∃ above line below, IsLine stream above line below ∧ isResponseLine line = true ∧
    pattern.Finds line captured ∧
    ∀ earlier there, stream = earlier ++ there → earlier.length < above.length →
      ∀ other, ¬ pattern.Fits there other

/-- What is found in a line is there in the text. -/
theorem Finds.exists_fits (h : pattern.Finds line captured)
    (hline : IsLine stream above line below) :
    ∃ before here, line = before ++ here ∧ stream = (above ++ before) ++ (here ++ below) ∧
      pattern.Fits (here ++ below) captured := by
  obtain ⟨before, here, rfl, hfits, -⟩ := h
  exact ⟨before, here, rfl, by simp [hline.text], hfits.append hline.below⟩

/-- What is found in a response line is found in what is left. -/
theorem FindsInResponse.finds (h : pattern.FindsInResponse stream captured)
    (hkept : IsReduct stream kept) (hmark : IsOneLine pattern.mark) :
    pattern.Finds kept captured := by
  obtain ⟨above, line, below, hline, hresponse, hfinds, hfirst⟩ := h
  obtain ⟨before, after, hlines, hbefore⟩ := hline.exists_lines
  have hnone : (before.filter isResponseLine).findSome? pattern.search? = none := by
    rw [List.findSome?_eq_none_iff]
    intro first hmem
    obtain ⟨upper, lower, hupper, hlength⟩ := hbefore first (List.mem_filter.1 hmem).1
    apply Option.eq_none_iff_forall_ne_some.2
    intro other hother
    obtain ⟨start, here, rfl, hsplit, hfits⟩ :=
      (search?_eq_some_iff.1 hother).exists_fits hupper
    apply hfirst _ _ hsplit _ other hfits
    simp only [List.length_append] at hlength ⊢
    omega
  rw [← search?_eq_some_iff, search?_of_isReduct hkept hmark, hlines, List.filter_append,
    List.findSome?_append, hnone, Option.none_or, List.filter_cons_of_pos hresponse,
    List.findSome?_cons, search?_eq_some_iff.2 hfinds]

/-- What is left supplies nothing where the whole stream does not. -/
theorem exists_finds_of_isReduct (hkept : IsReduct stream kept) (hmark : IsOneLine pattern.mark)
    (h : pattern.Finds kept captured) : ∃ other, pattern.Finds stream other := by
  rw [← search?_eq_some_iff, search?_of_isReduct hkept hmark] at h
  obtain ⟨line, hmem, hsearch⟩ := List.exists_of_findSome?_eq_some h
  obtain ⟨above, below, hline⟩ := exists_isLine (List.mem_filter.1 hmem).1
  obtain ⟨before, here, -, hsplit, hfits⟩ := (search?_eq_some_iff.1 hsearch).exists_fits hline
  exact hfits.exists_finds hsplit

theorem Fits.unique {here other : List Char} (h : pattern.Fits here captured)
    (h' : pattern.Fits here other) : captured = other := by
  rw [← bind_body?_eq_some_iff] at h h'
  exact Option.some.inj (h.symm.trans h')

/-- The mark of a pattern that fits stands on the line where the match begins. -/
theorem Fits.mark_prefix {left : List Char} (h : pattern.Fits (left ++ below) captured)
    (hmark : IsOneLine pattern.mark) (hbelow : ∀ c ∈ below.head?, isLineEnd c = true) :
    pattern.mark <+: left := by
  obtain ⟨more, hmore, -⟩ := Option.bind_eq_some_iff.1 (bind_body?_eq_some_iff.2 h)
  rcases List.append_eq_append_iff.1 (Text.after?_eq_some_iff.1 hmore) with
    ⟨beyond, hbeyond, hunder⟩ | ⟨rest, rfl, -⟩
  · cases beyond with
    | nil => exact ⟨[], by simp [hbeyond]⟩
    | cons c beyond =>
        rw [hunder] at hbelow
        have hnot := isOneLine_iff.1 hmark c (by rw [hbeyond]; simp)
        rw [hbelow c rfl] at hnot
        cases hnot
  · exact List.prefix_append _ _

/-- Where marks stand in response lines only, and lines with the mark of a status are no broken
status lines, everything is found in response lines. -/
theorem Finds.findsInResponse (h : pattern.Finds stream captured) (hmark : IsOneLine pattern.mark)
    (hlead : "< ".toList <+: pattern.mark)
    (hmarks : ∀ line ∈ lines stream, "< ".toList <:+: line → isResponseLine line = true)
    (hstatus : ∀ line ∈ lines stream, "< HTTP/".toList <:+: line →
      ∃ code, Pattern.status.Finds line code) : pattern.FindsInResponse stream captured := by
  obtain ⟨before, here, rfl, hfits, hfirst⟩ := h
  obtain ⟨above, start, left, below, rfl, rfl, hline⟩ := exists_isLine_of_append before here
  -- An earlier match in the line would be an earlier match in the stream.
  have hearlier : ∀ early there, start ++ left = early ++ there → early.length < start.length →
      ∀ other, ¬ pattern.Fits there other := by
    intro early there hsplit hlength other hother
    apply hfirst (above ++ early) (there ++ below) _ _ other (hother.append hline.below)
    · rw [List.append_assoc, ← List.append_assoc start, hsplit]
      simp
    · simp only [List.length_append]
      omega
  have hprefix := hfits.mark_prefix hmark hline.below
  have hpart : pattern.mark <:+: start ++ left :=
    hprefix.isInfix.trans (List.suffix_append _ _).isInfix
  have hwithin : pattern.Fits left captured := by
    rcases hfits.of_append hline.below with hwithin | ⟨c, beyond, hc, hbroken, -⟩
    · exact hwithin
    · obtain rfl : pattern = .status := hbroken.eq_status hmark hc (by simp)
      obtain ⟨code, early, there, hsplit, hcode, -⟩ := hstatus _ hline.mem_lines hpart
      rcases List.append_eq_append_iff.1 hsplit with ⟨gap, rfl, rfl⟩ | ⟨gap, rfl, rfl⟩
      · cases gap with
        | nil =>
            obtain rfl := hfits.unique (hcode.append hline.below)
            exact hcode
        | cons d gap =>
            -- The broken status line would hold the mark of the whole one.
            obtain ⟨matched, rest, rfl, hmatch, -⟩ := fits_iff.1 hcode
            obtain ⟨tail, rfl, -⟩ := hmatch.exists_status
            obtain ⟨more, hmore, hnot⟩ := hbroken.exists_status
            obtain ⟨-, rfl⟩ := List.cons.inj hmore
            exact absurd (by simp) hnot
      · cases gap with
        | nil =>
            rw [List.nil_append] at hcode
            obtain rfl := hfits.unique (hcode.append hline.below)
            exact hcode
        | cons d gap =>
            have hlength : early.length < (early ++ d :: gap).length := by simp
            exact absurd hcode (hearlier early _ (List.append_assoc _ _ _) hlength code)
  refine ⟨above, start ++ left, below, hline, ?_, ⟨start, left, rfl, hwithin, hearlier⟩, ?_⟩
  · exact hmarks _ hline.mem_lines (hlead.isInfix.trans hpart)
  · intro early there hsplit hlength
    apply hfirst early there hsplit
    rw [List.length_append]
    omega

end Pattern

/-! ### Metadata about the response -/

namespace RuleSet

variable {rule : Rule} {field : Field} {datum : Datum} {captured : List Char}

theorem eq_of_mem_standard {other : Rule} (h : rule ∈ standard.rules) (h' : other ∈ standard.rules)
    (hfield : rule.field = other.field) : rule = other := by
  have hall : ∀ rule ∈ standard.rules, ∀ other ∈ standard.rules,
      rule.field = other.field → rule = other := by decide
  exact hall rule h other h' hfield

/-- What a field about the response holds, by its rule. -/
theorem get?_of_rule {stream : String} {m : Metadata} (h : (standard.read stream).metadata = .ok m)
    (hrule : rule ∈ standard.rules) (hname : rule.field = field.name) :
    m.get? field = some datum ↔ ∃ captured, rule.pattern.Finds stream.toList captured ∧
      rule.pattern.datum captured = .ok datum := by
  rw [get?_standard_read_iff h]
  constructor
  · rintro ⟨other, hother, hfield, hcaptured⟩
    have hsame : rule.field = other.field := hname.trans hfield.symm
    rcases List.mem_append.1 hother with hmem | hmem
    · rw [eq_of_mem_standard hrule hmem hsame]
      exact hcaptured
    · have hall : ∀ rule ∈ standard.rules, rule.field ≠ Field.error.name := by decide
      exact absurd (hsame.trans (of_mem_errorRules hmem).1) (hall rule hrule)
  · exact fun hcaptured => ⟨rule, List.mem_append_left _ hrule, hname, hcaptured⟩

/-- Of a stream that can be read, everything that is found can be. -/
theorem exists_datum_of_read {stream : String} {m : Metadata}
    (h : (standard.read stream).metadata = .ok m)
    (hfinds : rule.pattern.Finds stream.toList captured) :
    ∃ datum, rule.pattern.datum captured = .ok datum := by
  cases hdatum : rule.pattern.datum captured with
  | ok datum => exact ⟨datum, rfl⟩
  | error fault =>
      obtain ⟨hpattern, hlong, -⟩ := Pattern.datum_eq_error_iff.1 hdatum
      have htoo : rule.pattern.TooLong stream.toList captured.length :=
        ⟨hpattern, hlong, captured, Pattern.search?_eq_some_iff.2 hfinds, rfl⟩
      have hfault : ∃ fault, (standard.read stream).metadata = .error fault := by
        by_cases hstatus : ∃ count, Pattern.status.TooLong stream.toList count
        · obtain ⟨count, hcount⟩ := hstatus
          exact ⟨_, standard_read_eq_error_iff.2 (.inl ⟨count, hcount, rfl⟩)⟩
        · have hnone := not_exists.1 hstatus
          rcases hpattern with heq | heq
          · rw [heq] at htoo
            exact absurd htoo (hnone _)
          · rw [heq] at htoo
            exact ⟨_, standard_read_eq_error_iff.2 (.inr ⟨hnone, _, htoo, rfl⟩)⟩
      obtain ⟨fault, herror⟩ := hfault
      rw [h] at herror
      cases herror

theorem exists_rule_of_ofResponse (h : field ∈ Field.ofResponse) : ∃ rule ∈ standard.rules,
    rule.pattern ≠ .duration ∧ rule.field = field.name := by
  revert field
  decide

theorem exists_field_of_rule (h : rule ∈ standard.rules) (hpattern : rule.pattern ≠ .duration) :
    ∃ field ∈ Field.ofResponse, rule.field = field.name := by
  revert rule
  decide

theorem lead_prefix_mark (h : rule ∈ standard.rules) (hpattern : rule.pattern ≠ .duration) :
    "< ".toList <+: rule.pattern.mark := by
  revert rule
  decide

section
variable {stream kept : String} {m : Metadata}

/-- What is left can be read, and says the same of the response. -/
def KeepsResponse (kept : String) (m : Metadata) : Prop :=
  ∃ m', (standard.read kept).metadata = .ok m' ∧
    ∀ field ∈ Field.ofResponse, m'.get? field = m.get? field

/-- What the rule finds in the stream, it finds in what is left, or else something that says the
same. -/
def Agrees (rule : Rule) (stream kept : List Char) : Prop :=
  ∀ captured, rule.pattern.Finds stream captured → ∃ other, rule.pattern.Finds kept other ∧
    rule.pattern.datum other = rule.pattern.datum captured

theorem keepsResponse_of_agrees (hread : (standard.read stream).metadata = .ok m)
    (hkept : IsReduct stream.toList kept.toList)
    (h : ∀ rule ∈ standard.rules, rule.pattern ≠ .duration →
      Agrees rule stream.toList kept.toList) : KeepsResponse kept m := by
  -- What is left has nothing that the stream has not, and it says the same.
  have hsame : ∀ rule ∈ standard.rules, rule.pattern ≠ .duration → ∀ other,
      rule.pattern.Finds kept.toList other → ∃ captured, rule.pattern.Finds stream.toList captured ∧
        rule.pattern.datum other = rule.pattern.datum captured := by
    intro rule hrule hpattern other hother
    obtain ⟨captured, hfinds⟩ :=
      Pattern.exists_finds_of_isReduct hkept (isOneLine_mark hrule) hother
    obtain ⟨other', hother', hdatum⟩ := h rule hrule hpattern captured hfinds
    rw [hother.unique hother']
    exact ⟨captured, hfinds, hdatum⟩
  obtain ⟨m', hread'⟩ : ∃ m', (standard.read kept).metadata = .ok m' := by
    apply exists_read standard_isKnown _ (.inr rfl)
    rintro rule hrule count ⟨hnumber, hlong, digits, hsearch, rfl⟩
    have hpattern : rule.pattern ≠ .duration := by
      intro heq
      rw [heq] at hnumber
      rcases hnumber with hstatus | hlength
      · cases hstatus
      · cases hlength
    obtain ⟨captured, hfinds, hdatum⟩ :=
      hsame rule hrule hpattern digits (Pattern.search?_eq_some_iff.1 hsearch)
    obtain ⟨datum, hok⟩ := exists_datum_of_read hread hfinds
    rw [hok, Pattern.datum_eq_error_iff.2 ⟨hnumber, hlong, rfl⟩] at hdatum
    cases hdatum
  refine ⟨m', hread', fun field hfield => ?_⟩
  obtain ⟨rule, hrule, hpattern, hname⟩ := exists_rule_of_ofResponse hfield
  apply Option.ext
  intro datum
  rw [get?_of_rule hread' hrule hname, get?_of_rule hread hrule hname]
  constructor
  · rintro ⟨other, hother, hdatum⟩
    obtain ⟨captured, hfinds, heq⟩ := hsame rule hrule hpattern other hother
    exact ⟨captured, hfinds, heq.symm.trans hdatum⟩
  · rintro ⟨captured, hfinds, hdatum⟩
    obtain ⟨other, hother, heq⟩ := h rule hrule hpattern captured hfinds
    exact ⟨other, hother, heq.trans hdatum⟩

theorem agrees_of_keepsResponse (hread : (standard.read stream).metadata = .ok m)
    (h : KeepsResponse kept m) (hrule : rule ∈ standard.rules)
    (hpattern : rule.pattern ≠ .duration) : Agrees rule stream.toList kept.toList := by
  intro captured hfinds
  obtain ⟨m', hread', hsame⟩ := h
  obtain ⟨field, hfield, hname⟩ := exists_field_of_rule hrule hpattern
  obtain ⟨datum, hdatum⟩ := exists_datum_of_read hread hfinds
  have hget : m'.get? field = some datum := by
    rw [hsame field hfield]
    exact (get?_of_rule hread hrule hname).2 ⟨captured, hfinds, hdatum⟩
  obtain ⟨other, hother, hdatum'⟩ := (get?_of_rule hread' hrule hname).1 hget
  exact ⟨other, hother, hdatum'.trans hdatum.symm⟩

/-- Deleting the lines that do not echo the response leaves the metadata about the response as they
are, exactly if what is found first elsewhere than in a response line is said by the response lines
as well. In particular, if the marks stand in response lines only and no status line is broken. -/
theorem standard_read_reduct_iff (hread : (standard.read stream).metadata = .ok m)
    (hkept : IsReduct stream.toList kept.toList) :
    (KeepsResponse kept m ↔ ∀ rule ∈ standard.rules, rule.pattern ≠ .duration → ∀ captured,
      rule.pattern.Finds stream.toList captured →
      ¬ rule.pattern.FindsInResponse stream.toList captured →
      ∃ other, rule.pattern.Finds kept.toList other ∧
        rule.pattern.datum other = rule.pattern.datum captured) ∧
    ((∀ line ∈ lines stream.toList, "< ".toList <:+: line → isResponseLine line = true) →
      (∀ line ∈ lines stream.toList, "< HTTP/".toList <:+: line →
        ∃ code, Pattern.status.Finds line code) → KeepsResponse kept m) := by
  refine ⟨⟨?_, ?_⟩, ?_⟩
  · intro h rule hrule hpattern captured hfinds _
    exact agrees_of_keepsResponse hread h hrule hpattern captured hfinds
  · intro h
    apply keepsResponse_of_agrees hread hkept
    intro rule hrule hpattern captured hfinds
    by_cases hresponse : rule.pattern.FindsInResponse stream.toList captured
    · exact ⟨captured, hresponse.finds hkept (isOneLine_mark hrule), rfl⟩
    · exact h rule hrule hpattern captured hfinds hresponse
  · intro hmarks hstatus
    apply keepsResponse_of_agrees hread hkept
    intro rule hrule hpattern captured hfinds
    have hresponse := hfinds.findsInResponse (isOneLine_mark hrule)
      (lead_prefix_mark hrule hpattern) hmarks hstatus
    exact ⟨captured, hresponse.finds hkept (isOneLine_mark hrule), rfl⟩

end

/-- A header and a status, each in a line of the response, and a request between notes. -/
theorem standard_read_reduct_plain : ∃ m,
    (standard.read "* a\n> b\n< HTTP/1 200\r\n< Server: c").metadata = .ok m ∧
    IsReduct "* a\n> b\n< HTTP/1 200\r\n< Server: c".toList "< HTTP/1 200\n< Server: c".toList ∧
    KeepsResponse "< HTTP/1 200\n< Server: c" m ∧ m.get? .server = some (.text "c") := by
  obtain ⟨m, hread⟩ := exists_standard_read "* a\n> b\n< HTTP/1 200\r\n< Server: c" (by decide)
  have hlines : lines "* a\n> b\n< HTTP/1 200\r\n< Server: c".toList =
      ["* a".toList, "> b".toList, "< HTTP/1 200".toList, [], "< Server: c".toList] := by decide
  have hkept : IsReduct "* a\n> b\n< HTTP/1 200\r\n< Server: c".toList
      "< HTTP/1 200\n< Server: c".toList := by
    show _ = List.filter _ (lines _)
    rw [hlines]
    decide
  refine ⟨m, hread, hkept, (standard_read_reduct_iff hread hkept).2 ?_ ?_, ?_⟩
  · rw [hlines]
    decide
  · have hstatus : ∀ line ∈
        ["* a".toList, "> b".toList, "< HTTP/1 200".toList, [], "< Server: c".toList],
        Text.occurs "< HTTP/".toList line = true →
        (Pattern.status.search? line).isSome = true := by decide
    intro line hline hmark
    rw [hlines] at hline
    obtain ⟨code, hcode⟩ :=
      Option.isSome_iff_exists.1 (hstatus line hline (Text.occurs_iff.2 hmark))
    exact ⟨code, Pattern.search?_eq_some_iff.1 hcode⟩
  · have hrule : Rule.ofHeader Field.server.name "Server" ∈ standard.rules := by decide
    apply (get?_of_rule hread hrule rfl).2
    exact ⟨"c".toList, Pattern.search?_eq_some_iff.1 (by decide), by decide⟩

/-- The subject of the certificate of a server, in a line about the connection, can pass for a
header of the response. -/
theorem not_reduct_subject : ¬ ∀ (stream kept : String) (m m' : Metadata),
    IsReduct stream.toList kept.toList → (standard.read stream).metadata = .ok m →
    (standard.read kept).metadata = .ok m' →
    ∀ field ∈ Field.ofResponse, m'.get? field = m.get? field := by
  intro h
  obtain ⟨m, hread⟩ := exists_standard_read "*  subject: O=< Server: forged" (by decide)
  obtain ⟨m', hread'⟩ := exists_standard_read "" (by decide)
  have hkept : IsReduct "*  subject: O=< Server: forged".toList "".toList := by
    unfold IsReduct
    decide
  have hrule : Rule.ofHeader Field.server.name "Server" ∈ standard.rules := by decide
  have hforged : m.get? .server = some (.text "forged") := (get?_of_rule hread hrule rfl).2
    ⟨"forged".toList, Pattern.search?_eq_some_iff.1 (by decide), by decide⟩
  have hsame := h _ _ m m' hkept hread hread' .server (by decide)
  rw [hforged] at hsame
  obtain ⟨captured, hfinds, -⟩ := (get?_of_rule hread' hrule rfl).1 hsame
  have hnone : (Rule.ofHeader Field.server.name "Server").pattern.search? "".toList = none := by
    decide
  rw [Pattern.search?_eq_some_iff.2 hfinds] at hnone
  cases hnone

end RuleSet

end CurlWarden.Diagnostics
