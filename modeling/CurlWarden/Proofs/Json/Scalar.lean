import CurlWarden.Json.Reader

/-!
# JSON scalars

The parts of JSON text without structure, written down without the reader: white space, numbers, and
the words such as `null`. A number stands in four parts, and a word is one of a list. Each is shown
to be what its part reader reads:

* a reader takes it off the front of a text that goes on in a way in which JSON may go on
  (`EndsValue`), and
* whatever a reader takes off a text is of this shape.

A whole number of too many digits is no scalar. `Overlong` describes the texts that start with one,
and reading those is the only way in which a part reader of this module fails with a fault.
-/

namespace CurlWarden.Json

/-! ### White space and what ends a value -/

/-- White space, as much as one likes. -/
def IsSpaces (gap : List Char) : Prop := ∀ c ∈ gap, isSpace c = true

/-- The text goes on as it may after a value. -/
def EndsValue (rest : List Char) : Prop :=
  ∀ c ∈ rest.head?, isSpace c = true ∨ c = ',' ∨ c = ']' ∨ c = '}'

/-- The text starts with a character that is no white space. -/
def StartsSolid (cs : List Char) : Prop := ∃ c rest, cs = c :: rest ∧ isSpace c = false

theorem skipSpace_append {gap cs : List Char} (h : IsSpaces gap) :
    skipSpace (gap ++ cs) = skipSpace cs := by
  induction gap with
  | nil => rfl
  | cons c gap ih =>
      have hc : isSpace c = true := h c (.head _)
      rw [← ih fun d hd => h d (.tail _ hd), skipSpace, skipSpace, List.cons_append,
        List.dropWhile_cons_of_pos hc]

theorem skipSpace_of_startsSolid {cs : List Char} (h : StartsSolid cs) : skipSpace cs = cs := by
  obtain ⟨c, rest, rfl, hc⟩ := h
  exact List.dropWhile_cons_of_neg (by simp [hc])

/-- White space is skipped, and nothing else. -/
theorem exists_gap_skipSpace (cs : List Char) : ∃ gap, IsSpaces gap ∧ cs = gap ++ skipSpace cs :=
  ⟨cs.takeWhile isSpace, fun _ hc => List.all_eq_true.1 List.all_takeWhile _ hc,
    List.takeWhile_append_dropWhile.symm⟩

/-! ### Faults and other failures -/

/-- Does the failure say more than that the text is no JSON? -/
def ReadError.IsFault : ReadError → Prop
  | .malformed _ => False
  | .tooManyDigits _ => True
  | .tooDeep _ => True

/-! ### Numbers -/

def IsDigits (ds : List Char) : Prop := ∀ d ∈ ds, Text.isAsciiDigit d = true

/-- The text starts with a digit. -/
def StartsDigit (cs : List Char) : Prop := ∃ d rest, cs = d :: rest ∧ Text.isAsciiDigit d = true

/-- A single zero, or digits that do not start with one. -/
def IsWhole (ds : List Char) : Prop := ds = ['0'] ∨ ds ≠ [] ∧ IsDigits ds ∧ ds.head? ≠ some '0'

/-- A point and digits. -/
def IsFraction (cs : List Char) : Prop := ∃ ds, cs = '.' :: ds ∧ ds ≠ [] ∧ IsDigits ds

/-- A mark, a sign if one likes, and digits. -/
def IsExponent (cs : List Char) : Prop :=
  ∃ mark sign ds, cs = mark :: (sign ++ ds) ∧ (mark = 'e' ∨ mark = 'E') ∧
    (sign = [] ∨ sign = ['+'] ∨ sign = ['-']) ∧ ds ≠ [] ∧ IsDigits ds

/-- The text starts with something of the given shape. -/
def StartsWith (shape : List Char → Prop) (cs : List Char) : Prop :=
  ∃ t rest, cs = t ++ rest ∧ shape t

/-- A number in its four parts. -/
structure Numeral where
  sign : List Char
  whole : List Char
  fraction : List Char
  exponent : List Char

namespace Numeral

def text (n : Numeral) : List Char := n.sign ++ (n.whole ++ (n.fraction ++ n.exponent))

/-- May the number be written, and read? Without fraction and exponent it may not have too many
digits. -/
structure IsProper (n : Numeral) : Prop where
  sign : n.sign = [] ∨ n.sign = ['-']
  whole : IsWhole n.whole
  fraction : n.fraction = [] ∨ IsFraction n.fraction
  exponent : n.exponent = [] ∨ IsExponent n.exponent
  digits : n.fraction = [] → n.exponent = [] → n.whole.length ≤ maxDigits

end Numeral

/-- The text starts with a whole number of `count` digits, and these are too many. -/
def Overlong (count : Nat) (cs : List Char) : Prop :=
  ∃ sign ds rest, cs = sign ++ (ds ++ rest) ∧ (sign = [] ∨ sign = ['-']) ∧ IsWhole ds ∧
    ds.length = count ∧ maxDigits < count ∧ ¬ StartsDigit rest ∧ ¬ StartsWith IsFraction rest ∧
    ¬ StartsWith IsExponent rest

/-- Digits as far as they go. -/
theorem takeWhile_digits {ds rest : List Char} (h : IsDigits ds) (hrest : ¬ StartsDigit rest) :
    (ds ++ rest).takeWhile Text.isAsciiDigit = ds ∧
      (ds ++ rest).dropWhile Text.isAsciiDigit = rest := by
  rw [List.takeWhile_append_of_pos h, List.dropWhile_append_of_pos h]
  cases rest with
  | nil => simp
  | cons c rest =>
      have hc : ¬ Text.isAsciiDigit c = true := fun hc => hrest ⟨c, rest, rfl, hc⟩
      rw [List.takeWhile_cons_of_neg hc, List.dropWhile_cons_of_neg hc]
      simp

theorem isDigits_takeWhile (cs : List Char) : IsDigits (cs.takeWhile Text.isAsciiDigit) :=
  fun _ hd => List.all_eq_true.1 List.all_takeWhile _ hd

theorem not_startsDigit_dropWhile (cs : List Char) :
    ¬ StartsDigit (cs.dropWhile Text.isAsciiDigit) := by
  rintro ⟨d, rest, heq, hd⟩
  have := List.head?_dropWhile_not Text.isAsciiDigit cs
  simp [heq, hd] at this

theorem wholePart?_eq_some_iff {cs whole rest : List Char} :
    wholePart? cs = some (whole, rest) ↔
      cs = whole ++ rest ∧ IsWhole whole ∧ (whole = ['0'] ∨ ¬ StartsDigit rest) := by
  constructor
  · intro h
    unfold wholePart? at h
    split at h
    · cases h
      exact ⟨rfl, .inl rfl, .inl rfl⟩
    · -- The digits do not start with a zero, since that case came first.
      next hzero =>
      simp only [Option.ite_none_left_eq_some, Option.some.injEq, Prod.mk.injEq] at h
      obtain ⟨hne, rfl, rfl⟩ := h
      refine ⟨List.takeWhile_append_dropWhile.symm, .inr ⟨by simpa using hne,
        isDigits_takeWhile cs, ?_⟩, .inr (not_startsDigit_dropWhile cs)⟩
      intro hhead
      cases cs with
      | nil => simp at hhead
      | cons c cs =>
          rw [List.takeWhile_cons] at hhead
          split at hhead
          · exact hzero cs (by simp_all)
          · simp at hhead
  · rintro ⟨rfl, rfl | ⟨hne, hdigits, hhead⟩, hrest⟩
    · rfl
    · obtain ⟨d, ds, rfl⟩ := List.exists_cons_of_ne_nil hne
      have hrest : ¬ StartsDigit rest := hrest.resolve_left fun h => by simp_all
      obtain ⟨htake, hdrop⟩ := takeWhile_digits hdigits hrest
      rw [List.cons_append] at htake hdrop ⊢
      unfold wholePart?
      split
      · simp_all
      · simp [htake, hdrop]

theorem fraction?_eq_some_iff {cs ds rest : List Char} :
    fraction? cs = some (ds, rest) ↔
      cs = '.' :: (ds ++ rest) ∧ ds ≠ [] ∧ IsDigits ds ∧ ¬ StartsDigit rest := by
  constructor
  · intro h
    unfold fraction? at h
    split at h
    · next cs =>
      simp only [Option.ite_none_left_eq_some, Option.some.injEq, Prod.mk.injEq] at h
      obtain ⟨hne, rfl, rfl⟩ := h
      exact ⟨by rw [List.takeWhile_append_dropWhile], by simpa using hne, isDigits_takeWhile cs,
        not_startsDigit_dropWhile cs⟩
    · cases h
  · rintro ⟨rfl, hne, hdigits, hrest⟩
    obtain ⟨htake, hdrop⟩ := takeWhile_digits hdigits hrest
    simp [fraction?, htake, hdrop, hne]

/-- Digits that a text starts with can be taken as far as they go. -/
theorem exists_longest_digits {ds : List Char} (rest : List Char) (h : IsDigits ds)
    (hne : ds ≠ []) :
    ∃ ds' rest', ds ++ rest = ds' ++ rest' ∧ ds' ≠ [] ∧ IsDigits ds' ∧ ¬ StartsDigit rest' := by
  obtain ⟨d, ds, rfl⟩ := List.exists_cons_of_ne_nil hne
  refine ⟨_, _, List.takeWhile_append_dropWhile.symm, ?_, isDigits_takeWhile _,
    not_startsDigit_dropWhile _⟩
  rw [List.cons_append, List.takeWhile_cons_of_pos (h d (.head _))]
  exact List.cons_ne_nil _ _

theorem fraction?_eq_none_iff {cs : List Char} :
    fraction? cs = none ↔ ¬ StartsWith IsFraction cs := by
  rw [Option.eq_none_iff_forall_ne_some]
  constructor
  · rintro h ⟨_, rest, rfl, ds, rfl, hne, hdigits⟩
    obtain ⟨ds', rest', heq, hne', hdigits', hrest'⟩ :=
      exists_longest_digits rest hdigits hne
    apply h (ds', rest')
    exact fraction?_eq_some_iff.2 ⟨by rw [List.cons_append, heq], hne', hdigits', hrest'⟩
  · rintro h ⟨ds, rest⟩ hfraction
    obtain ⟨rfl, hne, hdigits, -⟩ := fraction?_eq_some_iff.1 hfraction
    exact h ⟨'.' :: ds, rest, rfl, ds, rfl, hne, hdigits⟩

/-- What comes between the mark of an exponent and `cs`: a sign, or nothing if `cs` starts with no
sign. -/
def SignBefore (sign cs : List Char) : Prop :=
  sign = [] ∧ cs.head? ≠ some '-' ∧ cs.head? ≠ some '+' ∨ sign = ['+'] ∨ sign = ['-']

theorem exists_signBefore (cs : List Char) :
    ∃ sign rest, cs = sign ++ rest ∧ SignBefore sign rest := by
  by_cases hminus : cs.head? = some '-'
  · obtain ⟨rest, rfl⟩ := List.head?_eq_some_iff.1 hminus
    exact ⟨['-'], rest, rfl, .inr (.inr rfl)⟩
  · by_cases hplus : cs.head? = some '+'
    · obtain ⟨rest, rfl⟩ := List.head?_eq_some_iff.1 hplus
      exact ⟨['+'], rest, rfl, .inr (.inl rfl)⟩
    · exact ⟨[], cs, rfl, .inl ⟨rfl, hminus, hplus⟩⟩

/-- Digits are no sign. -/
theorem signBefore_digits {sign ds rest : List Char} (h : sign = [] ∨ sign = ['+'] ∨ sign = ['-'])
    (hne : ds ≠ []) (hdigits : IsDigits ds) : SignBefore sign (ds ++ rest) := by
  refine h.imp_left fun h => ⟨h, ?_⟩
  obtain ⟨d, ds, rfl⟩ := List.exists_cons_of_ne_nil hne
  have hd : Text.isAsciiDigit d = true := hdigits d (.head _)
  constructor
  · rintro ⟨⟩
    exact absurd hd (by decide)
  · rintro ⟨⟩
    exact absurd hd (by decide)

/-- Once the sign is passed, the digits decide whether there is an exponent. -/
theorem exponent?_cons {mark : Char} {sign cs : List Char} (hmark : mark = 'e' ∨ mark = 'E')
    (hsign : SignBefore sign cs) :
    (exponent? (mark :: (sign ++ cs))).map (·.2) =
      if (cs.takeWhile Text.isAsciiDigit).isEmpty then none
      else some (cs.dropWhile Text.isAsciiDigit) := by
  have hm : (mark == 'e' || mark == 'E') = true := by simpa using hmark
  rcases hsign with ⟨rfl, hminus, hplus⟩ | rfl | rfl
  · have hother : ∀ rest, cs ≠ '-' :: rest ∧ cs ≠ '+' :: rest := fun rest =>
      ⟨fun h => hminus (by rw [h]; rfl), fun h => hplus (by rw [h]; rfl)⟩
    rw [List.nil_append, exponent?, if_pos hm]
    · simp [apply_ite]
    · exact fun rest => (hother rest).1
    · exact fun rest => (hother rest).2
  · show (exponent? (mark :: '+' :: cs)).map (·.2) = _
    simp [exponent?, hm, apply_ite]
  · show (exponent? (mark :: '-' :: cs)).map (·.2) = _
    simp [exponent?, hm, apply_ite]

theorem exponent?_eq_none {mark : Char} {cs : List Char} (hmark : ¬ (mark = 'e' ∨ mark = 'E')) :
    exponent? (mark :: cs) = none := by
  have hm : ¬ (mark == 'e' || mark == 'E') = true := by simpa using hmark
  unfold exponent?
  exact if_neg hm

theorem exponent?_rest_iff {cs rest : List Char} :
    (exponent? cs).map (·.2) = some rest ↔
      ∃ t, cs = t ++ rest ∧ IsExponent t ∧ ¬ StartsDigit rest := by
  constructor
  · intro h
    cases cs with
    | nil => cases h
    | cons mark cs =>
        by_cases hmark : mark = 'e' ∨ mark = 'E'
        · obtain ⟨sign, ds, rfl, hsign⟩ := exists_signBefore cs
          rw [exponent?_cons hmark hsign, Option.ite_none_left_eq_some] at h
          obtain ⟨hne, ⟨⟩⟩ := h
          refine ⟨mark :: (sign ++ ds.takeWhile Text.isAsciiDigit), ?_,
            ⟨mark, sign, _, rfl, hmark, hsign.imp_left And.left, by simpa using hne,
              isDigits_takeWhile ds⟩, not_startsDigit_dropWhile ds⟩
          rw [List.cons_append, List.append_assoc, List.takeWhile_append_dropWhile]
        · rw [exponent?_eq_none hmark] at h
          cases h
  · rintro ⟨_, rfl, ⟨mark, sign, ds, rfl, hmark, hsign, hne, hdigits⟩, hrest⟩
    obtain ⟨htake, hdrop⟩ := takeWhile_digits hdigits hrest
    rw [List.cons_append, List.append_assoc,
      exponent?_cons hmark (signBefore_digits hsign hne hdigits), htake, hdrop]
    simp [hne]

theorem exponent?_eq_none_iff {cs : List Char} :
    exponent? cs = none ↔ ¬ StartsWith IsExponent cs := by
  rw [← Option.map_eq_none_iff (f := (·.2)), Option.eq_none_iff_forall_ne_some]
  constructor
  · rintro h ⟨_, rest, rfl, mark, sign, ds, rfl, hmark, hsign, hne, hdigits⟩
    obtain ⟨ds', rest', heq, hne', hdigits', hrest'⟩ :=
      exists_longest_digits rest hdigits hne
    refine h rest' (exponent?_rest_iff.2 ⟨mark :: (sign ++ ds'), ?_,
      ⟨mark, sign, ds', rfl, hmark, hsign, hne', hdigits'⟩, hrest'⟩)
    simp only [List.cons_append, List.append_assoc, heq]
  · intro h rest hrest
    obtain ⟨t, rfl, ht, -⟩ := exponent?_rest_iff.1 hrest
    exact h ⟨t, rest, rfl, ht⟩

/-! ### What may follow a number -/

section
variable {rest : List Char}

theorem EndsValue.not_startsDigit (h : EndsValue rest) : ¬ StartsDigit rest := by
  rintro ⟨d, rest, rfl, hd⟩
  rcases h d rfl with hc | rfl | rfl | rfl
  · simp only [isSpace, Bool.or_eq_true, beq_iff_eq] at hc
    rcases hc with ((rfl | rfl) | rfl) | rfl <;> exact absurd hd (by decide)
  all_goals exact absurd hd (by decide)

theorem EndsValue.not_startsWith_isFraction (h : EndsValue rest) :
    ¬ StartsWith IsFraction rest := by
  rintro ⟨_, rest, rfl, ds, rfl, -⟩
  exact absurd (h '.' rfl) (by decide)

theorem EndsValue.not_startsWith_isExponent (h : EndsValue rest) :
    ¬ StartsWith IsExponent rest := by
  rintro ⟨_, rest, rfl, mark, sign, ds, rfl, rfl | rfl, -⟩
  · exact absurd (h 'e' rfl) (by decide)
  · exact absurd (h 'E' rfl) (by decide)

theorem not_startsDigit_exponent {t : List Char} (h : t = [] ∨ IsExponent t)
    (hrest : ¬ StartsDigit rest) : ¬ StartsDigit (t ++ rest) := by
  rcases h with rfl | ⟨mark, sign, ds, rfl, rfl | rfl, -⟩
  · exact hrest
  all_goals
    rintro ⟨d, _, ⟨⟩, hd⟩
    exact absurd hd (by decide)

theorem not_startsDigit_fraction {t : List Char} (h : t = [] ∨ IsFraction t)
    (hrest : ¬ StartsDigit rest) : ¬ StartsDigit (t ++ rest) := by
  rcases h with rfl | ⟨ds, rfl, -⟩
  · exact hrest
  · rintro ⟨d, _, ⟨⟩, hd⟩
    exact absurd hd (by decide)

theorem not_startsWith_isFraction_exponent {t : List Char} (h : t = [] ∨ IsExponent t)
    (hrest : ¬ StartsWith IsFraction rest) : ¬ StartsWith IsFraction (t ++ rest) := by
  rcases h with rfl | ⟨mark, sign, ds, rfl, rfl | rfl, -⟩
  · exact hrest
  all_goals
    rintro ⟨_, _, heq, _, rfl, -⟩
    cases heq

end

/-! ### Reading numbers -/

/-- A fraction is taken off the text if the text starts with one. -/
theorem exists_fraction (cs : List Char) :
    ∃ t, cs = t ++ (fraction? cs).elim cs (·.2) ∧ (t = [] ∨ IsFraction t) ∧
      (t = [] → fraction? cs = none) := by
  cases h : fraction? cs with
  | none => exact ⟨[], rfl, .inl rfl, fun _ => rfl⟩
  | some split =>
      obtain ⟨ds, rest⟩ := split
      obtain ⟨rfl, hne, hdigits, -⟩ := fraction?_eq_some_iff.1 h
      exact ⟨'.' :: ds, rfl, .inr ⟨ds, rfl, hne, hdigits⟩, fun h => nomatch h⟩

/-- An exponent is taken off the text if the text starts with one. -/
theorem exists_exponent (cs : List Char) :
    ∃ t, cs = t ++ (exponent? cs).elim cs (·.2) ∧ (t = [] ∨ IsExponent t) ∧
      (t = [] → exponent? cs = none) := by
  cases h : exponent? cs with
  | none => exact ⟨[], rfl, .inl rfl, fun _ => rfl⟩
  | some split =>
      obtain ⟨t, heq, ht, -⟩ := exponent?_rest_iff.1 (congrArg (Option.map (·.2)) h)
      refine ⟨t, heq, .inr ht, ?_⟩
      rintro rfl
      obtain ⟨_, _, _, ⟨⟩, -⟩ := ht

/-- A fraction is taken off the text in front of what is neither a digit nor a fraction. -/
theorem fraction?_append {t rest : List Char} (ht : t = [] ∨ IsFraction t)
    (hdigit : ¬ StartsDigit rest) (hfraction : ¬ StartsWith IsFraction rest) :
    (fraction? (t ++ rest)).elim (t ++ rest) (·.2) = rest ∧
      (fraction? (t ++ rest) = none → t = []) := by
  rcases ht with rfl | ⟨ds, rfl, hne, hdigits⟩
  · rw [List.nil_append, fraction?_eq_none_iff.2 hfraction]
    exact ⟨rfl, fun _ => rfl⟩
  · have hsome : fraction? ('.' :: ds ++ rest) = some (ds, rest) :=
      fraction?_eq_some_iff.2 ⟨rfl, hne, hdigits, hdigit⟩
    rw [hsome]
    exact ⟨rfl, fun h => nomatch h⟩

/-- An exponent is taken off the text in front of what is neither a digit nor an exponent. -/
theorem exponent?_append {t rest : List Char} (ht : t = [] ∨ IsExponent t)
    (hdigit : ¬ StartsDigit rest) (hexponent : ¬ StartsWith IsExponent rest) :
    (exponent? (t ++ rest)).elim (t ++ rest) (·.2) = rest ∧
      (exponent? (t ++ rest) = none → t = []) := by
  rcases ht with rfl | ht
  · rw [List.nil_append, exponent?_eq_none_iff.2 hexponent]
    exact ⟨rfl, fun _ => rfl⟩
  · have hmap := exponent?_rest_iff.2 ⟨t, rfl, ht, hdigit⟩
    obtain ⟨⟨e, _⟩, hsome, rfl⟩ := Option.map_eq_some_iff.1 hmap
    rw [hsome]
    exact ⟨rfl, fun h => nomatch h⟩

/-- After its whole part, a number has come to its end, and is read if it is not too long. -/
theorem readDigits_of_none {negative : Bool} {cs whole rest : List Char}
    (hwhole : wholePart? cs = some (whole, rest)) (hfraction : fraction? rest = none)
    (hexponent : exponent? rest = none) :
    readDigits negative cs = (wholeNumber negative whole).map (·, rest) := by
  simp [readDigits, hwhole, hfraction, hexponent]

/-- After its whole part, a number goes on with a fraction or an exponent, and is read. -/
theorem readDigits_of_some (negative : Bool) {cs whole rest : List Char}
    (hwhole : wholePart? cs = some (whole, rest))
    (h : ¬ (fraction? rest = none ∧ exponent? ((fraction? rest).elim rest (·.2)) = none)) :
    ∃ v, readDigits negative cs = .ok (v, (exponent? ((fraction? rest).elim rest (·.2))).elim
      ((fraction? rest).elim rest (·.2)) (·.2)) := by
  unfold readDigits
  rw [hwhole]
  cases hfraction : fraction? rest <;> cases hexponent : exponent? _ <;>
    simp_all

theorem map_eq_ok_iff {α : Type} {answer : Except ReadError α} {v : α} {rest more : List Char} :
    answer.map (·, more) = .ok (v, rest) ↔ answer = .ok v ∧ more = rest := by
  cases answer <;> simp [Except.map]

theorem map_eq_error_iff {α : Type} {answer : Except ReadError α} {e : ReadError}
    {more : List Char} : answer.map (·, more) = .error e ↔ answer = .error e := by
  cases answer <;> simp [Except.map]

theorem wholeNumber_eq_error_iff {negative : Bool} {whole : List Char} {e : ReadError} :
    wholeNumber negative whole = .error e ↔
      maxDigits < whole.length ∧ e = .tooManyDigits whole.length := by
  unfold wholeNumber
  split
  · next hlong => simp [hlong, eq_comm]
  · next hlong => simp [hlong]

theorem wholeNumber_eq_ok_iff {negative : Bool} {whole : List Char} :
    (∃ v, wholeNumber negative whole = .ok v) ↔ whole.length ≤ maxDigits := by
  unfold wholeNumber
  split
  · simp; omega
  · simp; omega

/-- What is read without its sign is a proper number without one. -/
theorem exists_of_readDigits {negative : Bool} {cs rest : List Char} {v : Value}
    (h : readDigits negative cs = .ok (v, rest)) :
    ∃ n : Numeral, n.IsProper ∧ n.sign = [] ∧ cs = n.text ++ rest := by
  cases hwhole : wholePart? cs with
  | none => simp [readDigits, hwhole] at h
  | some split =>
      obtain ⟨whole, more⟩ := split
      obtain ⟨rfl, hw, -⟩ := wholePart?_eq_some_iff.1 hwhole
      obtain ⟨f, hf, hfraction, hfnone⟩ := exists_fraction more
      obtain ⟨e, he, hexponent, henone⟩ := exists_exponent ((fraction? more).elim more (·.2))
      by_cases hnone : fraction? more = none ∧ exponent? ((fraction? more).elim more (·.2)) = none
      · obtain ⟨hnf, hne⟩ := hnone
        rw [hnf, Option.elim_none] at hne
        rw [readDigits_of_none hwhole hnf hne, map_eq_ok_iff] at h
        obtain ⟨hnumber, rfl⟩ := h
        exact ⟨⟨[], whole, [], []⟩, ⟨.inl rfl, hw, .inl rfl, .inl rfl,
          fun _ _ => wholeNumber_eq_ok_iff.1 ⟨v, hnumber⟩⟩, rfl, by simp [Numeral.text]⟩
      · obtain ⟨v', heq⟩ := readDigits_of_some negative hwhole hnone
        rw [heq] at h
        cases h
        refine ⟨⟨[], whole, f, e⟩, ⟨.inl rfl, hw, hfraction, hexponent,
          fun hf he => absurd ⟨hfnone hf, henone he⟩ hnone⟩, rfl, ?_⟩
        calc whole ++ more
            = whole ++ (f ++ (fraction? more).elim more (·.2)) := by rw [← hf]
          _ = whole ++ (f ++ (e ++ _)) := by rw [← he]
          _ = _ := by simp [Numeral.text]

/-- A proper number without its sign is read. -/
theorem readDigits_text (negative : Bool) {n : Numeral} {rest : List Char} (hn : n.IsProper)
    (hsign : n.sign = []) (hrest : EndsValue rest) :
    ∃ v, readDigits negative (n.text ++ rest) = .ok (v, rest) := by
  obtain ⟨sign, whole, fraction, exponent⟩ := n
  cases hsign
  -- Each part ends where it should: what follows it cannot be taken for more of it.
  have hdigit : ¬ StartsDigit (exponent ++ rest) :=
    not_startsDigit_exponent hn.exponent hrest.not_startsDigit
  have hpoint : ¬ StartsWith IsFraction (exponent ++ rest) :=
    not_startsWith_isFraction_exponent hn.exponent hrest.not_startsWith_isFraction
  have hmore : ¬ StartsDigit (fraction ++ (exponent ++ rest)) :=
    not_startsDigit_fraction hn.fraction hdigit
  obtain ⟨hf, hfnil⟩ := fraction?_append hn.fraction hdigit hpoint
  obtain ⟨he, henil⟩ :=
    exponent?_append hn.exponent hrest.not_startsDigit hrest.not_startsWith_isExponent
  have hwhole : wholePart? (whole ++ (fraction ++ (exponent ++ rest))) =
      some (whole, fraction ++ (exponent ++ rest)) :=
    wholePart?_eq_some_iff.2 ⟨rfl, hn.whole, .inr hmore⟩
  have htext : Numeral.text ⟨[], whole, fraction, exponent⟩ ++ rest =
      whole ++ (fraction ++ (exponent ++ rest)) := by
    simp [Numeral.text]
  rw [htext]
  by_cases hnone : fraction? (fraction ++ (exponent ++ rest)) = none ∧
      exponent? (exponent ++ rest) = none
  · obtain ⟨hnf, hne⟩ := hnone
    cases hfnil hnf
    cases henil hne
    obtain ⟨v, hv⟩ := wholeNumber_eq_ok_iff.2 (hn.digits rfl rfl)
    exact ⟨v, by rw [readDigits_of_none hwhole hnf hne, hv]; rfl⟩
  · obtain ⟨v, hv⟩ := readDigits_of_some negative hwhole (by rwa [hf])
    exact ⟨v, by rw [hv, hf, he]⟩

/-- Where reading digits fails with a fault, there are too many of them. -/
theorem readDigits_isFault_iff {negative : Bool} {cs : List Char} {e : ReadError} :
    readDigits negative cs = .error e ∧ e.IsFault ↔
      ∃ ds rest, cs = ds ++ rest ∧ IsWhole ds ∧ maxDigits < ds.length ∧
        e = .tooManyDigits ds.length ∧ ¬ StartsDigit rest ∧ ¬ StartsWith IsFraction rest ∧
        ¬ StartsWith IsExponent rest := by
  constructor
  · rintro ⟨h, hfault⟩
    cases hwhole : wholePart? cs with
    | none =>
        simp only [readDigits, hwhole, Except.error.injEq] at h
        cases h
        exact hfault.elim
    | some split =>
        obtain ⟨whole, rest⟩ := split
        obtain ⟨rfl, hw, hdigit⟩ := wholePart?_eq_some_iff.1 hwhole
        by_cases hnone : fraction? rest = none ∧ exponent? ((fraction? rest).elim rest (·.2)) = none
        · obtain ⟨hnf, hne⟩ := hnone
          rw [hnf, Option.elim_none] at hne
          rw [readDigits_of_none hwhole hnf hne] at h
          obtain ⟨hlong, rfl⟩ := wholeNumber_eq_error_iff.1 (map_eq_error_iff.1 h)
          refine ⟨whole, rest, rfl, hw, hlong, rfl, hdigit.resolve_left ?_,
            fraction?_eq_none_iff.1 hnf, exponent?_eq_none_iff.1 hne⟩
          rintro rfl
          exact absurd hlong (by decide)
        · obtain ⟨v, heq⟩ := readDigits_of_some negative hwhole hnone
          rw [heq] at h
          cases h
  · rintro ⟨ds, rest, rfl, hw, hlong, rfl, hdigit, hfraction, hexponent⟩
    rw [readDigits_of_none (wholePart?_eq_some_iff.2 ⟨rfl, hw, .inr hdigit⟩)
      (fraction?_eq_none_iff.2 hfraction) (exponent?_eq_none_iff.2 hexponent)]
    exact ⟨map_eq_error_iff.2 (wholeNumber_eq_error_iff.2 ⟨hlong, rfl⟩), trivial⟩

theorem IsWhole.isDigits {ds : List Char} (h : IsWhole ds) : ds ≠ [] ∧ IsDigits ds := by
  rcases h with rfl | ⟨hne, hdigits, -⟩
  · exact ⟨List.cons_ne_nil _ _, by simp [IsDigits]; decide⟩
  · exact ⟨hne, hdigits⟩

/-- A number is read without its sign, which is taken off first. -/
theorem exists_readNumber (cs : List Char) :
    ∃ sign rest negative, cs = sign ++ rest ∧ (sign = [] ∨ sign = ['-']) ∧
      readNumber cs = readDigits negative rest := by
  unfold readNumber
  split
  · next rest => exact ⟨['-'], rest, true, rfl, .inr rfl, rfl⟩
  · exact ⟨[], cs, false, rfl, .inl rfl, rfl⟩

theorem readNumber_append {sign ds : List Char} (rest : List Char)
    (hsign : sign = [] ∨ sign = ['-']) (hne : ds ≠ []) (hdigits : IsDigits ds) :
    ∃ negative, readNumber (sign ++ (ds ++ rest)) = readDigits negative (ds ++ rest) := by
  rcases hsign with rfl | rfl
  · refine ⟨false, ?_⟩
    rw [List.nil_append]
    unfold readNumber
    split
    · next heq =>
      obtain ⟨d, ds, rfl⟩ := List.exists_cons_of_ne_nil hne
      cases heq
      exact absurd (hdigits '-' (.head _)) (by decide)
    · rfl
  · exact ⟨true, rfl⟩

/-- What is read is a proper number. -/
theorem exists_of_readNumber {cs rest : List Char} {v : Value} (h : readNumber cs = .ok (v, rest)) :
    ∃ n : Numeral, n.IsProper ∧ cs = n.text ++ rest := by
  obtain ⟨sign, more, negative, rfl, hsign, heq⟩ := exists_readNumber cs
  obtain ⟨n, hn, hnil, rfl⟩ := exists_of_readDigits (heq ▸ h)
  refine ⟨{ n with sign }, ⟨hsign, hn.whole, hn.fraction, hn.exponent, hn.digits⟩, ?_⟩
  simp [Numeral.text, hnil]

/-- A proper number is read. -/
theorem readNumber_text {n : Numeral} {rest : List Char} (hn : n.IsProper)
    (hrest : EndsValue rest) :
    ∃ v, readNumber (n.text ++ rest) = .ok (v, rest) := by
  obtain ⟨hne, hdigits⟩ := hn.whole.isDigits
  obtain ⟨negative, heq⟩ :=
    readNumber_append (n.fraction ++ n.exponent ++ rest) hn.sign hne hdigits
  obtain ⟨v, hv⟩ := readDigits_text negative (n := { n with sign := [] })
    ⟨.inl rfl, hn.whole, hn.fraction, hn.exponent, hn.digits⟩ rfl hrest
  refine ⟨v, ?_⟩
  rw [← hv]
  simpa [Numeral.text] using heq

/-- Where reading a number fails with a fault, it is too long. -/
theorem readNumber_isFault_iff {cs : List Char} {e : ReadError} :
    readNumber cs = .error e ∧ e.IsFault ↔
      ∃ count, e = .tooManyDigits count ∧ Overlong count cs := by
  constructor
  · intro h
    obtain ⟨sign, more, negative, rfl, hsign, heq⟩ := exists_readNumber cs
    rw [heq] at h
    obtain ⟨ds, rest, rfl, hw, hlong, rfl, hrest⟩ := readDigits_isFault_iff.1 h
    exact ⟨_, rfl, sign, ds, rest, rfl, hsign, hw, rfl, hlong, hrest⟩
  · rintro ⟨_, rfl, sign, ds, rest, rfl, hsign, hw, rfl, hlong, hrest⟩
    obtain ⟨hne, hdigits⟩ := hw.isDigits
    obtain ⟨negative, heq⟩ := readNumber_append rest hsign hne hdigits
    rw [heq]
    exact readDigits_isFault_iff.2 ⟨ds, rest, rfl, hw, hlong, rfl, hrest⟩

/-! ### Reading words and numbers -/

/-- A word, or a number that may be read. -/
def IsScalar (t : List Char) : Prop :=
  t ∈ words.map (·.1.toList) ∨ ∃ n : Numeral, n.IsProper ∧ t = n.text

/-- The word at the start of a text, and what follows it. -/
def word? (cs : List Char) : Option (Value × List Char) :=
  words.findSome? fun (word, v) => (Text.after? word.toList cs).map (v, ·)

theorem readScalar_of_word? {cs : List Char} {read : Value × List Char} (h : word? cs = some read) :
    readScalar cs = .ok read := by
  rw [word?] at h
  rw [readScalar, h]

theorem readScalar_of_word?_eq_none {cs : List Char} (h : word? cs = none) :
    readScalar cs = readNumber cs := by
  rw [word?] at h
  rw [readScalar, h]

theorem exists_of_word? {cs rest : List Char} {v : Value} (h : word? cs = some (v, rest)) :
    ∃ t ∈ words.map (·.1.toList), cs = t ++ rest := by
  obtain ⟨⟨word, v'⟩, hmem, hsome⟩ := List.exists_of_findSome?_eq_some h
  obtain ⟨rest', hafter, ⟨⟩⟩ := Option.map_eq_some_iff.1 hsome
  exact ⟨word.toList, List.mem_map_of_mem hmem, Text.after?_eq_some_iff.1 hafter⟩

/-- No word is the start of another. -/
theorem word?_append {t : List Char} (h : t ∈ words.map (·.1.toList)) (rest : List Char) :
    ∃ v, word? (t ++ rest) = some (v, rest) := by
  simp only [words, List.map_cons, List.map_nil, List.mem_cons, List.not_mem_nil, or_false] at h
  rcases h with rfl | rfl | rfl | rfl | rfl | rfl
  all_goals exact ⟨_, rfl⟩

/-- A word is no number. -/
theorem word?_eq_none {sign ds : List Char} (rest : List Char) (hsign : sign = [] ∨ sign = ['-'])
    (hne : ds ≠ []) (hdigits : IsDigits ds) : word? (sign ++ (ds ++ rest)) = none := by
  obtain ⟨d, ds, rfl⟩ := List.exists_cons_of_ne_nil hne
  have hd : Text.isAsciiDigit d = true := hdigits d (.head _)
  have hletters : (['n', 't', 'f', 'N', 'I', '-'].all fun c => !Text.isAsciiDigit c) = true := by
    decide
  have hother : ∀ c ∈ ['n', 't', 'f', 'N', 'I', '-'], c ≠ d := by
    rintro c hc rfl
    have hc' := List.all_eq_true.1 hletters c hc
    rw [hd] at hc'
    cases hc'
  -- After a minus the only word goes on with an `I`.
  simp only [List.forall_mem_cons] at hother
  obtain ⟨hn, ht, hf, hN, hI, hminus, -⟩ := hother
  rcases hsign with rfl | rfl
  · simp [word?, words, Text.after?, hn, ht, hf, hN, hI, hminus]
  · simp [word?, words, Text.after?, hI]

/-- What is read is a word or a number. -/
theorem exists_of_readScalar {cs rest : List Char} {v : Value} (h : readScalar cs = .ok (v, rest)) :
    ∃ t, cs = t ++ rest ∧ IsScalar t := by
  cases hword : word? cs with
  | some read =>
      rw [readScalar_of_word? hword] at h
      cases h
      obtain ⟨t, hmem, rfl⟩ := exists_of_word? hword
      exact ⟨t, rfl, .inl hmem⟩
  | none =>
      rw [readScalar_of_word?_eq_none hword] at h
      obtain ⟨n, hn, rfl⟩ := exists_of_readNumber h
      exact ⟨n.text, rfl, .inr ⟨n, hn, rfl⟩⟩

/-- Words and numbers are read. -/
theorem readScalar_append {t rest : List Char} (ht : IsScalar t) (hrest : EndsValue rest) :
    ∃ v, readScalar (t ++ rest) = .ok (v, rest) := by
  rcases ht with hmem | ⟨n, hn, rfl⟩
  · obtain ⟨v, hword⟩ := word?_append hmem rest
    exact ⟨v, readScalar_of_word? hword⟩
  · obtain ⟨hne, hdigits⟩ := hn.whole.isDigits
    have hword : word? (n.text ++ rest) = none := by
      have := word?_eq_none (n.fraction ++ n.exponent ++ rest) hn.sign hne hdigits
      simpa [Numeral.text] using this
    rw [readScalar_of_word?_eq_none hword]
    exact readNumber_text hn hrest

/-- Where reading a word or a number fails with a fault, it is a number that is too long. -/
theorem readScalar_isFault_iff {cs : List Char} {e : ReadError} :
    readScalar cs = .error e ∧ e.IsFault ↔
      ∃ count, e = .tooManyDigits count ∧ Overlong count cs := by
  cases hword : word? cs with
  | some read =>
      rw [readScalar_of_word? hword]
      constructor
      · rintro ⟨⟨⟩, -⟩
      · rintro ⟨_, -, sign, ds, rest, rfl, hsign, hw, -⟩
        obtain ⟨hne, hdigits⟩ := hw.isDigits
        rw [word?_eq_none rest hsign hne hdigits] at hword
        cases hword
  | none =>
      rw [readScalar_of_word?_eq_none hword]
      exact readNumber_isFault_iff

end CurlWarden.Json
