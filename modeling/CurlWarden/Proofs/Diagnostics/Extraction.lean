import CurlWarden.Proofs.Diagnostics.Datum
import CurlWarden.Proofs.Diagnostics.Expression
import CurlWarden.Proofs.Diagnostics.Faults
import CurlWarden.Proofs.Text.Search

/-!
# What is read from a diagnostic stream

Every rule looks for its pattern on its own. This module says what a stream holds without looking
for anything: where a pattern fits (`Pattern.Fits`), which of these places is the leftmost
(`Pattern.Finds`), and which of the rules for a field is the last that has such a place
(`Supplies`).

* `Pattern.search?_eq_some_iff` — what a pattern is found to capture, it captures at the leftmost
  place that it fits.
* `get?_ofFindings_iff` — what the findings put into a field is supplied by the last rule. The
  induction is on the rules, over what the field held before.
* `RuleSet.read_extracts` — reading a stream, with the error text in its own place, and with what
  the captured texts say.
-/

namespace CurlWarden

namespace Diagnostics

variable {stream cs : List Char}

/-! ### Where a pattern fits -/

/-- A text that starts with a run starts with no character that is not in it. -/
theorem IsRun.append_ne_cons {isIn : Char → Bool} {run rest : List Char} {c : Char}
    (h : IsRun isIn run rest) (hc : isIn c = false) (more : List Char) :
    run ++ rest ≠ c :: more := by
  intro hsplit
  cases run with
  | nil => exact h.ne_nil rfl
  | cons d run =>
      obtain rfl : d = c := (List.cons.inj hsplit).1
      rw [h.mem d (.head _)] at hc
      cases hc

/-- What follows a version number, if it is no point. -/
theorem afterVersion?_eq_some_iff {rest : List Char} (h : ∀ more, rest ≠ '.' :: more) :
    afterVersion? cs = some rest ↔ ∃ major minor, cs = major ++ (minor ++ rest) ∧
      IsRun Text.isDigit major (minor ++ rest) ∧
      (minor = [] ∨ ∃ digits, minor = '.' :: digits ∧ IsRun Text.isDigit digits rest) := by
  rw [afterVersion?]
  constructor
  · intro hversion
    obtain ⟨⟨major, left⟩, hmajor, hleft⟩ := Option.map_eq_some_iff.1 hversion
    obtain ⟨rfl, hrun⟩ := run?_eq_some_iff.1 hmajor
    dsimp only at hleft
    split at hleft
    · next more =>
      cases hdigits : run? Text.isDigit more with
      | none =>
          rw [hdigits] at hleft
          exact absurd hleft.symm (h more)
      | some parts =>
          obtain ⟨digits, rest'⟩ := parts
          obtain rfl : rest' = rest := by simpa [hdigits] using hleft
          obtain ⟨rfl, hfraction⟩ := run?_eq_some_iff.1 hdigits
          exact ⟨major, '.' :: digits, rfl, hrun, .inr ⟨digits, rfl, hfraction⟩⟩
    · subst hleft
      exact ⟨major, [], rfl, hrun, .inl rfl⟩
  · rintro ⟨major, minor, rfl, hmajor, hminor⟩
    rw [run?_eq_some_iff.2 ⟨rfl, hmajor⟩]
    rcases hminor with rfl | ⟨digits, rfl, hdigits⟩
    · simp only [Option.map_some, List.nil_append]
    · simp [run?_eq_some_iff.2 ⟨rfl, hdigits⟩]

namespace Pattern

/-- The pattern fits the start of the text, and this is what it captures there. Every run in it is
as long as it can be. -/
def Fits : Pattern → (here captured : List Char) → Prop
  | .status, here, captured => ∃ major minor blanks rest,
      here = "< HTTP/".toList ++ (major ++ (minor ++ (blanks ++ (captured ++ rest)))) ∧
      IsRun Text.isDigit major (minor ++ (blanks ++ (captured ++ rest))) ∧
      (minor = [] ∨ ∃ digits, minor = '.' :: digits ∧
        IsRun Text.isDigit digits (blanks ++ (captured ++ rest))) ∧
      IsRun Text.isBlank blanks (captured ++ rest) ∧ IsRun Text.isDigit captured rest
  | .header name, here, captured => ∃ rest,
      here = ("< " ++ name ++ ": ").toList ++ (captured ++ rest) ∧
      IsRun (!isLineEnd ·) captured rest
  | .length, here, captured => ∃ rest,
      here = "< Content-Length: ".toList ++ (captured ++ rest) ∧ IsRun Text.isDigit captured rest
  | .duration, here, captured => ∃ whole fraction rest,
      here = whole ++ '.' :: (fraction ++ (" secs".toList ++ rest)) ∧
      IsRun Text.isDigit whole ('.' :: (fraction ++ (" secs".toList ++ rest))) ∧
      IsRun Text.isDigit fraction (" secs".toList ++ rest) ∧ captured = whole ++ '.' :: fraction
  | .failure, here, captured => ∃ digits rest,
      here = "curl: (".toList ++ (digits ++ (") ".toList ++ (captured ++ rest))) ∧
      IsRun Text.isDigit digits (") ".toList ++ (captured ++ rest)) ∧
      IsRun (!isLineEnd ·) captured rest

/-- The pattern captures this at the leftmost place that it fits. -/
def Finds (pattern : Pattern) (stream captured : List Char) : Prop :=
  ∃ before here, stream = before ++ here ∧ pattern.Fits here captured ∧
    ∀ earlier there, stream = earlier ++ there → earlier.length < before.length →
      ∀ other, ¬ pattern.Fits there other

theorem Fits.admits {pattern : Pattern} {here captured : List Char}
    (h : pattern.Fits here captured) : pattern.Admits captured := by
  cases pattern with
  | status =>
      obtain ⟨_, _, _, _, -, -, -, -, hdigits⟩ := h
      exact hdigits.mem
  | header name => trivial
  | length =>
      obtain ⟨_, -, hdigits⟩ := h
      exact hdigits.mem
  | duration =>
      obtain ⟨whole, fraction, _, -, hwhole, hfraction, rfl⟩ := h
      refine ⟨whole, fraction, rfl, fun d hd => ?_⟩
      exact (List.mem_append.1 hd).elim (hwhole.mem d) (hfraction.mem d)
  | failure => trivial

/-- What is captured is a part of the text. -/
theorem Fits.infix {pattern : Pattern} {here captured : List Char}
    (h : pattern.Fits here captured) : captured <:+: here := by
  cases pattern with
  | status =>
      obtain ⟨major, minor, blanks, rest, rfl, -⟩ := h
      exact ⟨"< HTTP/".toList ++ (major ++ (minor ++ blanks)), rest, by simp⟩
  | header name =>
      obtain ⟨rest, rfl, -⟩ := h
      exact ⟨("< " ++ name ++ ": ").toList, rest, by simp⟩
  | length =>
      obtain ⟨rest, rfl, -⟩ := h
      exact ⟨"< Content-Length: ".toList, rest, by simp⟩
  | duration =>
      obtain ⟨whole, fraction, rest, rfl, -, -, rfl⟩ := h
      exact ⟨[], " secs".toList ++ rest, by simp⟩
  | failure =>
      obtain ⟨digits, rest, rfl, -⟩ := h
      exact ⟨"curl: (".toList ++ (digits ++ ") ".toList), rest, by simp⟩

theorem Finds.length_le {pattern : Pattern} {captured : List Char}
    (h : pattern.Finds stream captured) : captured.length ≤ stream.length := by
  obtain ⟨before, here, rfl, hfits, -⟩ := h
  have hlength := hfits.infix.length_le
  rw [List.length_append]
  omega

theorem bind_body?_eq_some_iff {pattern : Pattern} {here captured : List Char} :
    (Text.after? pattern.mark here).bind pattern.body? = some captured ↔
      pattern.Fits here captured := by
  simp only [Option.bind_eq_some_iff, Text.after?_eq_some_iff]
  cases pattern with
  | status =>
      simp only [body?, Option.bind_eq_bind, Option.bind_eq_some_iff, Option.map_eq_some_iff,
        Prod.exists, run?_eq_some_iff, Fits]
      constructor
      · rintro ⟨_, rfl, left, hversion, blanks, _, ⟨rfl, hblanks⟩, _, rest, ⟨rfl, hcode⟩, rfl⟩
        obtain ⟨major, minor, rfl, hmajor, hminor⟩ :=
          (afterVersion?_eq_some_iff (hblanks.append_ne_cons (by decide))).1 hversion
        exact ⟨major, minor, blanks, rest, rfl, hmajor, hminor, hblanks, hcode⟩
      · rintro ⟨major, minor, blanks, rest, rfl, hmajor, hminor, hblanks, hcode⟩
        refine ⟨_, rfl, _, ?_, blanks, _, ⟨rfl, hblanks⟩, captured, rest, ⟨rfl, hcode⟩, rfl⟩
        exact (afterVersion?_eq_some_iff (hblanks.append_ne_cons (by decide))).2
          ⟨major, minor, rfl, hmajor, hminor⟩
  | header name =>
      simp only [body?, lineRest?, Option.map_eq_some_iff, Prod.exists, run?_eq_some_iff, Fits]
      constructor
      · rintro ⟨_, rfl, _, rest, ⟨rfl, hrun⟩, rfl⟩
        exact ⟨rest, rfl, hrun⟩
      · rintro ⟨rest, rfl, hrun⟩
        exact ⟨_, rfl, captured, rest, ⟨rfl, hrun⟩, rfl⟩
  | length =>
      simp only [body?, Option.map_eq_some_iff, Prod.exists, run?_eq_some_iff, Fits]
      constructor
      · rintro ⟨_, rfl, _, rest, ⟨rfl, hrun⟩, rfl⟩
        exact ⟨rest, rfl, hrun⟩
      · rintro ⟨rest, rfl, hrun⟩
        exact ⟨_, rfl, captured, rest, ⟨rfl, hrun⟩, rfl⟩
  | duration =>
      simp only [body?, Option.bind_eq_bind, Option.bind_eq_some_iff, Option.some.injEq,
        Prod.exists, run?_eq_some_iff, Text.after?_eq_some_iff, Fits]
      constructor
      · rintro ⟨_, rfl, whole, _, ⟨rfl, hwhole⟩, _, rfl, fraction, _, ⟨rfl, hfraction⟩, rest, rfl,
          rfl⟩
        exact ⟨whole, fraction, rest, rfl, hwhole, hfraction, rfl⟩
      · rintro ⟨whole, fraction, rest, rfl, hwhole, hfraction, rfl⟩
        exact ⟨_, rfl, whole, _, ⟨rfl, hwhole⟩, _, rfl, fraction, _, ⟨rfl, hfraction⟩, rest, rfl,
          rfl⟩
  | failure =>
      simp only [body?, lineRest?, Option.bind_eq_bind, Option.bind_eq_some_iff,
        Option.map_eq_some_iff, Prod.exists, run?_eq_some_iff, Text.after?_eq_some_iff, Fits]
      constructor
      · rintro ⟨_, rfl, digits, _, ⟨rfl, hdigits⟩, _, rfl, _, rest, ⟨rfl, hrun⟩, rfl⟩
        exact ⟨digits, rest, rfl, hdigits, hrun⟩
      · rintro ⟨digits, rest, rfl, hdigits, hrun⟩
        exact ⟨_, rfl, digits, _, ⟨rfl, hdigits⟩, _, rfl, captured, rest, ⟨rfl, hrun⟩, rfl⟩

theorem search?_eq_some_iff {pattern : Pattern} {captured : List Char} :
    pattern.search? stream = some captured ↔ pattern.Finds stream captured := by
  have hnone : ∀ there, (Text.after? pattern.mark there).bind pattern.body? = none ↔
      ∀ other, ¬ pattern.Fits there other := by
    intro there
    simp only [Option.eq_none_iff_forall_ne_some, ne_eq, bind_body?_eq_some_iff]
  rw [search?]
  simp only [Text.firstMatch_eq_some_iff, bind_body?_eq_some_iff, hnone]
  rfl

end Pattern

/-! ### Which rule supplies a field -/

section
variable {rule : Rule} {rules more : List Rule} {field : Field} {datum : Datum}

/-- No rule for the field fits anywhere. -/
def Silent (rules : List Rule) (stream : List Char) (field : Field) : Prop :=
  ∀ rule ∈ rules, rule.field = field.name → ∀ captured, ¬ rule.pattern.Finds stream captured

/-- The last of the rules for the field that fits somewhere supplies the datum. -/
def Supplies (rules : List Rule) (stream : List Char) (field : Field) (datum : Datum) : Prop :=
  ∃ before rule after captured, rules = before ++ rule :: after ∧ rule.field = field.name ∧
    rule.pattern.Finds stream captured ∧ rule.pattern.datum captured = .ok datum ∧
    Silent after stream field

theorem not_supplies_nil : ¬ Supplies [] stream field datum := by
  rintro ⟨before, rule, after, -, hsplit, -⟩
  cases before <;> cases hsplit

theorem not_supplies_of_silent (h : Silent rules stream field) :
    ¬ Supplies rules stream field datum := by
  rintro ⟨before, rule, after, captured, rfl, hfield, hfinds, -⟩
  exact h rule (by simp) hfield captured hfinds

theorem supplies_cons : Supplies (rule :: rules) stream field datum ↔
    Supplies rules stream field datum ∨
      (rule.field = field.name ∧ ∃ captured, rule.pattern.Finds stream captured ∧
        rule.pattern.datum captured = .ok datum) ∧ Silent rules stream field := by
  constructor
  · rintro ⟨before, last, after, captured, hsplit, hfield, hfinds, hdatum, hsilent⟩
    cases before with
    | nil =>
        obtain ⟨rfl, rfl⟩ := List.cons.inj hsplit
        exact .inr ⟨⟨hfield, captured, hfinds, hdatum⟩, hsilent⟩
    | cons first before =>
        obtain ⟨rfl, rfl⟩ := List.cons.inj hsplit
        exact .inl ⟨before, last, after, captured, rfl, hfield, hfinds, hdatum, hsilent⟩
  · rintro (⟨before, last, after, captured, rfl, hsupplies⟩ |
      ⟨⟨hfield, captured, hfinds, hdatum⟩, hsilent⟩)
    · exact ⟨rule :: before, last, after, captured, rfl, hsupplies⟩
    · exact ⟨[], rule, rules, captured, rfl, hfield, hfinds, hdatum, hsilent⟩

theorem silent_append : Silent (rules ++ more) stream field ↔
    Silent rules stream field ∧ Silent more stream field := List.forall_mem_append

theorem supplies_append : Supplies (rules ++ more) stream field datum ↔
    Supplies more stream field datum ∨
      Silent more stream field ∧ Supplies rules stream field datum := by
  induction rules with
  | nil => simp [not_supplies_nil]
  | cons rule rules ih =>
      rw [List.cons_append, supplies_cons, supplies_cons, silent_append, ih]
      grind

/-- Where the rules for a field can be read, one of them supplies it, unless none fits. -/
theorem exists_supplies (hdatum : ∀ rule ∈ rules, ∀ captured,
      rule.pattern.Finds stream captured → ∃ datum, rule.pattern.datum captured = .ok datum)
    (h : ¬ Silent rules stream field) : ∃ datum, Supplies rules stream field datum := by
  induction rules with
  | nil => exact absurd nofun h
  | cons rule rules ih =>
      simp only [supplies_cons]
      by_cases hsilent : Silent rules stream field
      · have hrule : rule.field = field.name ∧ ∃ captured, rule.pattern.Finds stream captured :=
          Classical.byContradiction fun hnone => h (List.forall_mem_cons.2
            ⟨fun hfield captured hfinds => hnone ⟨hfield, captured, hfinds⟩, hsilent⟩)
        obtain ⟨hfield, captured, hfinds⟩ := hrule
        obtain ⟨datum, hcaptured⟩ := hdatum rule (.head _) captured hfinds
        exact ⟨datum, .inr ⟨⟨hfield, captured, hfinds, hcaptured⟩, hsilent⟩⟩
      · obtain ⟨datum, hsupplies⟩ := ih (fun r hr => hdatum r (.tail _ hr)) hsilent
        exact ⟨datum, .inl hsupplies⟩

theorem Field.ofName?_eq_some_iff {name : String} :
    Field.ofName? name = some field ↔ name = field.name := by
  constructor
  · intro h
    rw [ofName?] at h
    exact (eq_of_beq (List.find?_some h :)).symm
  · rintro rfl
    exact ofName?_name field

theorem Field.eq_of_name_eq {field' : Field} (h : field.name = field'.name) : field = field' := by
  have hname := Field.ofName?_eq_some_iff.2 h
  rw [Field.ofName?_name] at hname
  exact Option.some.inj hname

theorem of_ofFindings_cons_eq_ok {name : String} {found : List (String × Datum)} {m m' : Metadata}
    (h : Metadata.ofFindings m ((name, datum) :: found) = .ok m') :
    ∃ known : Field, name = known.name ∧
      Metadata.ofFindings (m.set known datum) found = .ok m' := by
  rw [Metadata.ofFindings] at h
  split at h
  · cases h
  · next known hknown => exact ⟨known, Field.ofName?_eq_some_iff.1 hknown, h⟩

/-- What a field holds in the end is supplied by a rule, or it was there before and no rule for the
field fits. -/
theorem get?_ofFindings_iff {found : List (String × Datum)} {m m' : Metadata}
    (hfound : findings stream rules = .ok found) (hm : Metadata.ofFindings m found = .ok m') :
    m'.get? field = some datum ↔
      Supplies rules stream field datum ∨
        Silent rules stream field ∧ m.get? field = some datum := by
  induction rules generalizing m found with
  | nil =>
      cases hfound
      cases hm
      simp [not_supplies_nil, Silent]
  | cons rule rules ih =>
      have hsilent : Silent (rule :: rules) stream field ↔
          (rule.field = field.name → ∀ captured, ¬ rule.pattern.Finds stream captured) ∧
            Silent rules stream field := List.forall_mem_cons
      rw [supplies_cons, hsilent]
      rcases of_findings_cons_eq_ok hfound with
        ⟨hsearch, hrest⟩ | ⟨captured, first, found, hsearch, hdatum, hrest, rfl⟩
      · have hnone : ∀ captured, ¬ rule.pattern.Finds stream captured := by
          intro captured hfinds
          rw [Pattern.search?_eq_some_iff.2 hfinds] at hsearch
          cases hsearch
        rw [ih hrest hm]
        simp [hnone]
      · have hfinds : ∀ other, rule.pattern.Finds stream other ↔ other = captured := by
          intro other
          rw [← Pattern.search?_eq_some_iff, hsearch, Option.some.injEq, eq_comm]
        obtain ⟨known, hknown, hm⟩ := of_ofFindings_cons_eq_ok hm
        -- The first rule sets its field, and a later rule for it sets it again.
        rw [ih hrest hm, Metadata.get?_set, hknown]
        simp only [hfinds]
        by_cases heq : field = known
        · simp [heq, hdatum, and_comm]
        · have hname : known.name ≠ field.name := fun h => heq (Field.eq_of_name_eq h).symm
          simp [heq, hname]

end

/-! ### Reading a stream -/

namespace RuleSet

variable {set : RuleSet} {field : Field} {datum : Datum}

/-- The set looks for an error text, and the stream holds one of its markers. -/
def IsMarked (set : RuleSet) (stream : List Char) : Prop :=
  set.errorPattern = some .failure ∧ ∃ marker ∈ set.errorMarkers, marker.toList <:+: stream

/-- The text is the trimmed text of the first error in a marked stream. -/
def Reports (set : RuleSet) (stream : List Char) (text : String) : Prop :=
  set.IsMarked stream ∧ ∃ captured, Pattern.failure.Finds stream captured ∧
    text = String.ofList (Text.trim captured)

theorem errorRules_of_isMarked (h : set.IsMarked stream) :
    set.errorRules stream = [⟨Field.error.name, .failure⟩] := by
  obtain ⟨hpattern, marker, hmarker, hoccurs⟩ := h
  have hany : (set.errorMarkers.any fun marker => Text.occurs marker.toList stream) = true :=
    List.any_eq_true.2 ⟨marker, hmarker, Text.occurs_iff.2 hoccurs⟩
  simp only [errorRules, hpattern, hany, if_true]

theorem errorRules_of_not_isMarked
    (hset : set.errorPattern = none ∨ set.errorPattern = some .failure)
    (h : ¬ set.IsMarked stream) : set.errorRules stream = [] := by
  rcases hset with hnone | hpattern
  · simp only [errorRules, hnone]
  · have hany : (set.errorMarkers.any fun marker => Text.occurs marker.toList stream) = false := by
      rw [List.any_eq_false]
      exact fun marker hmarker hoccurs => h ⟨hpattern, marker, hmarker, Text.occurs_iff.1 hoccurs⟩
    simp only [errorRules, hpattern, hany, Bool.false_eq_true, if_false]

/-- The rule for the error text supplies what is reported. -/
theorem supplies_errorRules_iff
    (hset : set.errorPattern = none ∨ set.errorPattern = some .failure) :
    Supplies (set.errorRules stream) stream .error datum ↔
      ∃ text, set.Reports stream text ∧ datum = .text text := by
  by_cases hmarked : set.IsMarked stream
  · rw [errorRules_of_isMarked hmarked, supplies_cons]
    constructor
    · rintro (hnil | ⟨⟨-, captured, hfinds, hdatum⟩, -⟩)
      · exact absurd hnil not_supplies_nil
      · cases hdatum
        exact ⟨_, ⟨hmarked, captured, hfinds, rfl⟩, rfl⟩
    · rintro ⟨text, ⟨-, captured, hfinds, rfl⟩, rfl⟩
      exact .inr ⟨⟨rfl, captured, hfinds, rfl⟩, nofun⟩
  · rw [errorRules_of_not_isMarked hset hmarked]
    constructor
    · exact fun hnil => absurd hnil not_supplies_nil
    · rintro ⟨text, ⟨hmark, -⟩, -⟩
      exact absurd hmark hmarked

theorem silent_errorRules_iff (hset : set.errorPattern = none ∨ set.errorPattern = some .failure) :
    Silent (set.errorRules stream) stream .error ↔ ∀ text, ¬ set.Reports stream text := by
  by_cases hmarked : set.IsMarked stream
  · rw [errorRules_of_isMarked hmarked, Silent, List.forall_mem_singleton]
    constructor
    · rintro hsilent text ⟨-, captured, hfinds, -⟩
      exact hsilent rfl captured hfinds
    · exact fun hnone _ captured hfinds => hnone _ ⟨hmarked, captured, hfinds, rfl⟩
  · rw [errorRules_of_not_isMarked hset hmarked]
    exact ⟨fun _ text hreports => hmarked hreports.1, fun _ => nofun⟩

/-- The rule for the error text says nothing about the other fields. -/
theorem silent_errorRules_of_ne (h : field ≠ .error) :
    Silent (set.errorRules stream) stream field := by
  intro rule hrule hfield
  rw [(of_mem_errorRules hrule).1] at hfield
  exact absurd (Field.eq_of_name_eq hfield).symm h

/-- Rules of the standard set, and rules for headers of any name, supply existing fields. -/
theorem isKnown_of_standard_or_header
    (h : ∀ rule ∈ set.rules, rule ∈ standard.rules ∨
      ∃ (field : Field) (name : String), rule = .ofHeader field.name name) : set.IsKnown := by
  intro rule hrule
  rcases h rule hrule with hstandard | ⟨field, name, rfl⟩
  · exact standard_isKnown rule hstandard
  · exact ⟨field, Field.ofName?_name field⟩

/-- What metadata hold is supplied by the rules of the set and the rule for the error text. -/
theorem get?_read_iff {stream : String} {m : Metadata} (h : (set.read stream).metadata = .ok m) :
    m.get? field = some datum ↔
      Supplies (set.rules ++ set.errorRules stream.toList) stream.toList field datum := by
  rw [read] at h
  split at h
  · cases h
  · next found hfound =>
    rw [get?_ofFindings_iff hfound h, Metadata.get?_empty]
    simp

/-- Without too many digits, reading gives metadata. -/
theorem exists_read (hknown : set.IsKnown) {stream : String}
    (h : ∀ rule ∈ set.rules, ∀ count, ¬ rule.pattern.TooLong stream.toList count)
    (herror : set.errorPattern = none ∨ set.errorPattern = some .failure) :
    ∃ m, (set.read stream).metadata = .ok m := by
  have hall : ∀ rule ∈ set.rules ++ set.errorRules stream.toList, ∀ count,
      ¬ rule.pattern.TooLong stream.toList count := by
    intro rule hrule count hlong
    rcases List.mem_append.1 hrule with hmem | hmem
    · exact h rule hmem count hlong
    · have hpattern := (of_mem_errorRules hmem).2
      rcases herror with hnone | hfailure
      · rw [hnone] at hpattern
        cases hpattern
      · rw [hfailure] at hpattern
        have hnumber := hlong.1
        rw [← Option.some.inj hpattern] at hnumber
        rcases hnumber with hstatus | hlength
        · cases hstatus
        · cases hlength
  cases hread : (set.read stream).metadata with
  | error fault =>
      have hfound := (read_eq_error_iff hknown).1 hread
      exact absurd hfound (findings_ne_error_of_not_tooLong hall fault)
  | ok m => exact ⟨m, rfl⟩

/-- Reading a stream takes, for each field, what the last rule for it that fits somewhere captures
at its leftmost place; the error is the reported text, where there is one. The leftmost place is
where a search for the expression of the pattern finds it, and what is captured there stands for
what it says. -/
theorem read_extracts (set : RuleSet) (stream : String) (hknown : set.IsKnown)
    (herror : set.errorPattern = none ∨ set.errorPattern = some .failure)
    (hdigits : ∀ rule ∈ set.rules, rule.pattern = .status ∨ rule.pattern = .length →
      ∀ digits, rule.pattern.Finds stream.toList digits → digits.length ≤ Json.maxDigits) :
    (∃ m, (set.read stream).metadata = .ok m ∧
      (∀ field datum, field ≠ .error →
        (m.get? field = some datum ↔ Supplies set.rules stream.toList field datum)) ∧
      ∀ datum, m.get? .error = some datum ↔
        (∃ text, set.Reports stream.toList text ∧ datum = .text text) ∨
          (∀ text, ¬ set.Reports stream.toList text) ∧
            Supplies set.rules stream.toList .error datum) ∧
    (∀ field, (∃ datum, Supplies set.rules stream.toList field datum) ↔
      ∃ rule ∈ set.rules, rule.field = field.name ∧
        ∃ captured, rule.pattern.Finds stream.toList captured) ∧
    (∀ (pattern : Pattern) (captured : List Char), pattern.Finds stream.toList captured ↔
      pattern.expression.search? stream.toList = some captured) ∧
    ∀ (pattern : Pattern) (captured : List Char) (datum : Datum),
      pattern.Finds stream.toList captured →
      (pattern.datum captured = .ok datum ↔
        (pattern = .status ∨ pattern = .length → captured.length ≤ Json.maxDigits) ∧
          pattern.Says captured datum) := by
  have hshort : ∀ rule ∈ set.rules, ∀ count, ¬ rule.pattern.TooLong stream.toList count := by
    rintro rule hrule count ⟨hnumber, hlong, digits, hsearch, rfl⟩
    exact Nat.not_lt.2 (hdigits rule hrule hnumber digits (Pattern.search?_eq_some_iff.1 hsearch))
      hlong
  refine ⟨?_, fun field => ⟨?_, ?_⟩, fun pattern captured => ?_, ?_⟩
  · obtain ⟨m, hread⟩ := exists_read hknown hshort herror
    refine ⟨m, hread, fun field datum hfield => ?_, fun datum => ?_⟩
    · have hsilent : Silent (set.errorRules stream.toList) stream.toList field :=
        silent_errorRules_of_ne hfield
      rw [get?_read_iff hread, supplies_append]
      simp [hsilent, not_supplies_of_silent hsilent]
    · rw [get?_read_iff hread, supplies_append, supplies_errorRules_iff herror,
        silent_errorRules_iff herror]
  · rintro ⟨datum, before, rule, after, captured, hsplit, hfield, hfinds, -⟩
    exact ⟨rule, by rw [hsplit]; simp, hfield, captured, hfinds⟩
  · rintro ⟨rule, hrule, hfield, captured, hfinds⟩
    refine exists_supplies (fun r hr captured' hfinds' => ?_) fun hsilent =>
      hsilent rule hrule hfield captured hfinds
    cases hdatum : r.pattern.datum captured' with
    | ok datum => exact ⟨datum, rfl⟩
    | error fault =>
        obtain ⟨hnumber, hlong, -⟩ := Pattern.datum_eq_error_iff.1 hdatum
        exact absurd hlong (Nat.not_lt.2 (hdigits r hr hnumber captured' hfinds'))
  · rw [← Pattern.search?_eq_search, Pattern.search?_eq_some_iff]
  · rintro pattern captured datum ⟨_, _, -, hfits, -⟩
    exact Pattern.datum_eq_ok_iff hfits.admits

/-- Of two rules for the server the later one counts, and of two servers in its shape the first. -/
theorem read_extracts_servers :
    ∃ m, (RuleSet.read { standard with rules := standard.rules ++ [.ofHeader "server" "server"] }
        "< Server: a\r\n< server: \n< server: b \n< server: c\ncurl: (22) gone").metadata = .ok m ∧
      m.get? .server = some (.text "b") ∧ m.get? .error = some (.text "gone") := by
  let rules := standard.rules ++ [.ofHeader "server" "server"]
  let stream := "< Server: a\r\n< server: \n< server: b \n< server: c\ncurl: (22) gone"
  have hknown : RuleSet.IsKnown { standard with rules := rules } := by
    apply isKnown_of_standard_or_header
    intro rule hrule
    rcases List.mem_append.1 hrule with hmem | hmem
    · exact .inl hmem
    · exact .inr ⟨.server, "server", List.mem_singleton.1 hmem⟩
  have hdigits : ∀ rule ∈ rules, rule.pattern = .status ∨ rule.pattern = .length →
      ∀ digits, rule.pattern.Finds stream.toList digits → digits.length ≤ Json.maxDigits :=
    fun _ _ _ _ hfinds => Nat.le_trans hfinds.length_le (by decide)
  obtain ⟨⟨m, hread, hfield, herror⟩, -⟩ :=
    read_extracts { standard with rules := rules } stream hknown (.inr rfl) hdigits
  refine ⟨m, hread, (hfield .server _ (by decide)).2 ?_, (herror _).2 (.inl ⟨"gone", ?_, rfl⟩)⟩
  · exact ⟨standard.rules, .ofHeader "server" "server", [], "b ".toList, rfl, rfl,
      Pattern.search?_eq_some_iff.1 (by decide), rfl, nofun⟩
  · refine ⟨⟨rfl, "curl:", .head _, ?_⟩, "gone".toList,
      Pattern.search?_eq_some_iff.1 (by decide), rfl⟩
    exact Text.occurs_iff.1 (by decide)

end RuleSet

end Diagnostics

end CurlWarden
