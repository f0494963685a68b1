import CurlWarden.Proofs.Json.Series

/-!
# What is JSON, and what is a fault

The two sides of `Value.read`, both as relations on the text and without the reader:

* `Written depth` holds of the values that nest at most `depth` deep, and `Value.read` succeeds on
  such a value with white space around it and on nothing else (`Value.read_isOk_iff`);
* `Faulty depth` holds of the texts that begin like such a value up to a place where there is a
  whole number of too many digits or one bracket too many, and these are the texts on which
  `Value.read` fails with a fault (`Value.read_isFault_iff`).

On every other text it fails because the text is malformed. What comes before the fault must be
well formed, since the reader stops at the first thing that is wrong.
-/

namespace CurlWarden.Json

/-- A value that holds no others: a word, a number or a text. -/
def IsFlat (t : List Char) : Prop := IsScalar t ∨ IsQuoted t

/-- A value that nests at most `depth` deep. -/
def Written : (depth : Nat) → List Char → Prop
  | 0, t => IsFlat t
  | depth + 1, t =>
    IsFlat t ∨
      (∃ cs, t = '[' :: cs ∧ IsContent ']' (Written depth) cs) ∨
      ∃ cs, t = '{' :: cs ∧ IsContent '}' (IsMember (Written depth)) cs

/-- A text that begins like a value that nests at most `depth` deep, up to a fault. -/
def Faulty : (depth : Nat) → List Char → ReadError → Prop
  | 0, cs, e =>
    (∃ count, e = .tooManyDigits count ∧ Overlong count cs) ∨
      (e = .tooDeep .array ∧ cs.head? = some '[') ∨ (e = .tooDeep .object ∧ cs.head? = some '{')
  | depth + 1, cs, e =>
    (∃ count, e = .tooManyDigits count ∧ Overlong count cs) ∨
      (∃ rest, cs = '[' :: rest ∧ FaultyContent (Written depth) (Faulty depth) rest e) ∨
      ∃ rest, cs = '{' :: rest ∧
        FaultyContent (IsMember (Written depth)) (FaultyMember (Faulty depth)) rest e

/-! ### How scalars start -/

/-- A character with which a word or a number starts. -/
def StartsScalar (cs : List Char) : Prop :=
  ∃ c rest, cs = c :: rest ∧ (Text.isAsciiDigit c = true ∨ c ∈ ['-', 'n', 't', 'f', 'N', 'I'])

theorem StartsScalar.not_mem {cs : List Char} (h : StartsScalar cs) :
    ∃ c rest, cs = c :: rest ∧ c ∉ [' ', '\t', '\n', '\r', '"', '[', ']', '{', '}', '\uFEFF'] := by
  obtain ⟨c, rest, rfl, hc⟩ := h
  refine ⟨c, rest, rfl, fun hmem => ?_⟩
  have hother : ([' ', '\t', '\n', '\r', '"', '[', ']', '{', '}', '\uFEFF'].all fun d =>
      !(Text.isAsciiDigit d || ['-', 'n', 't', 'f', 'N', 'I'].contains d)) = true := by decide
  have hneither := List.all_eq_true.1 hother c hmem
  simp only [Bool.not_eq_true', Bool.or_eq_false_iff, List.contains_eq_mem,
    decide_eq_false_iff_not] at hneither
  rcases hc with hdigit | hletter
  · rw [hneither.1] at hdigit
    cases hdigit
  · exact hneither.2 hletter

theorem startsScalar_digits {sign ds : List Char} (rest : List Char)
    (hsign : sign = [] ∨ sign = ['-']) (hds : IsWhole ds) :
    StartsScalar (sign ++ (ds ++ rest)) := by
  rcases hsign with rfl | rfl
  · obtain ⟨hne, hdigits⟩ := hds.isDigits
    obtain ⟨d, ds, rfl⟩ := List.exists_cons_of_ne_nil hne
    exact ⟨d, ds ++ rest, rfl, .inl (hdigits d (.head _))⟩
  · exact ⟨'-', ds ++ rest, rfl, .inr (.head _)⟩

theorem IsScalar.startsScalar {t : List Char} (h : IsScalar t) : StartsScalar t := by
  rcases h with hmem | ⟨n, hn, rfl⟩
  · simp only [words, List.map_cons, List.map_nil, List.mem_cons, List.not_mem_nil,
      or_false] at hmem
    rcases hmem with rfl | rfl | rfl | rfl | rfl | rfl
    all_goals exact ⟨_, _, rfl, by decide⟩
  · exact startsScalar_digits _ hn.sign hn.whole

theorem Overlong.startsScalar {count : Nat} {cs : List Char} (h : Overlong count cs) :
    StartsScalar cs := by
  obtain ⟨sign, ds, rest, rfl, hsign, hds, -⟩ := h
  exact startsScalar_digits rest hsign hds

theorem StartsScalar.startsPart {cs : List Char} (h : StartsScalar cs) : StartsPart cs := by
  obtain ⟨c, rest, rfl, hc⟩ := h.not_mem
  refine ⟨c, rest, rfl, ?_⟩
  simp only [List.mem_cons, not_or] at hc
  simp [isSpace, hc]

/-! ### How values start -/

theorem IsFlat.startsPart {t : List Char} (h : IsFlat t) : StartsPart t :=
  h.elim (fun h => h.startsScalar.startsPart) IsQuoted.startsPart

theorem Written.startsPart {depth : Nat} {t : List Char} (h : Written depth t) : StartsPart t := by
  cases depth with
  | zero => exact IsFlat.startsPart h
  | succ depth =>
      rcases h with h | ⟨cs, rfl, -⟩ | ⟨cs, rfl, -⟩
      · exact h.startsPart
      · exact ⟨'[', cs, rfl, by decide⟩
      · exact ⟨'{', cs, rfl, by decide⟩

theorem Faulty.startsPart {depth : Nat} {cs : List Char} {e : ReadError} (h : Faulty depth cs e) :
    StartsPart cs := by
  cases depth with
  | zero =>
      rcases h with ⟨count, -, h⟩ | ⟨-, h⟩ | ⟨-, h⟩
      · exact h.startsScalar.startsPart
      · obtain ⟨rest, rfl⟩ := List.head?_eq_some_iff.1 h
        exact ⟨'[', rest, rfl, by decide⟩
      · obtain ⟨rest, rfl⟩ := List.head?_eq_some_iff.1 h
        exact ⟨'{', rest, rfl, by decide⟩
  | succ depth =>
      rcases h with ⟨count, -, h⟩ | ⟨rest, rfl, -⟩ | ⟨rest, rfl, -⟩
      · exact h.startsScalar.startsPart
      · exact ⟨'[', rest, rfl, by decide⟩
      · exact ⟨'{', rest, rfl, by decide⟩

/-! ### Values by their first character -/

section
variable {fuel depth : Nat} {cs rest : List Char} {e : ReadError}

theorem readValue_quote : readValue fuel depth ('"' :: cs) =
    (readText [] cs).map fun (s, rest) => (.text s, rest) := by
  cases depth <;> rfl

theorem readValue_array : readValue fuel (depth + 1) ('[' :: cs) =
    readEnclosed (readValue fuel depth) ']' .list fuel cs := by
  rw [readValue, readEnclosed]
  cases skipSpace cs with
  | nil => exact readItems_eq _ _ _ _
  | cons c rest =>
      by_cases hc : c = ']'
      · subst hc
        rfl
      · rw [if_neg (by simpa using hc), ← readItems_eq]
        split
        · next heq =>
          cases heq
          exact absurd rfl hc
        · rfl

theorem readValue_object : readValue fuel (depth + 1) ('{' :: cs) =
    readEnclosed (readMember (readValue fuel depth)) '}' (.object ∘ assignAll) fuel cs := by
  rw [readValue, readEnclosed]
  cases skipSpace cs with
  | nil => exact readMembers_eq _ _ _ _
  | cons c rest =>
      by_cases hc : c = '}'
      · subst hc
        rfl
      · rw [if_neg (by simpa using hc), ← readMembers_eq]
        split
        · next heq =>
          cases heq
          exact absurd rfl hc
        · rfl

theorem readValue_other (h : cs.head? ∉ [some '"', some '[', some '{']) :
    readValue fuel depth cs = readScalar cs := by
  simp only [List.mem_cons, List.not_mem_nil, or_false, not_or] at h
  unfold readValue
  split
  all_goals simp_all

/-- The first character says what kind of value there may be. -/
theorem head_cases (cs : List Char) :
    (∃ rest, cs = '"' :: rest) ∨ (∃ rest, cs = '[' :: rest) ∨ (∃ rest, cs = '{' :: rest) ∨
      cs.head? ∉ [some '"', some '[', some '{'] := by
  simp only [← List.head?_eq_some_iff, List.mem_cons, List.not_mem_nil, or_false]
  by_cases hquote : cs.head? = some '"'
  · exact .inl hquote
  · by_cases hbracket : cs.head? = some '['
    · exact .inr (.inl hbracket)
    · by_cases hbrace : cs.head? = some '{'
      · exact .inr (.inr (.inl hbrace))
      · exact .inr (.inr (.inr (by simp [hquote, hbracket, hbrace])))

theorem StartsScalar.head? (h : StartsScalar cs) (rest : List Char) :
    (cs ++ rest).head? ∉ [some '"', some '[', some '{'] := by
  obtain ⟨c, more, rfl, hc⟩ := h.not_mem
  simp only [List.mem_cons, not_or] at hc
  simp [hc]

end

/-! ### Texts and scalars as values -/

section
variable {fuel depth : Nat} {cs t rest : List Char} {v : Value} {e : ReadError}

theorem exists_readValue_flat (ht : IsFlat t) (hrest : EndsValue rest) :
    ∃ v, readValue fuel depth (t ++ rest) = .ok (v, rest) := by
  rcases ht with ht | ⟨t, rfl, ht⟩
  · rw [readValue_other (ht.startsScalar.head? rest)]
    exact readScalar_append ht hrest
  · obtain ⟨s, hs⟩ := readText_append ht [] rest
    exact ⟨.text s, by rw [List.cons_append, readValue_quote, hs]; rfl⟩

theorem exists_flat_of_quote (h : readValue fuel depth ('"' :: cs) = .ok (v, rest)) :
    ∃ t, '"' :: cs = t ++ rest ∧ IsFlat t := by
  rw [readValue_quote] at h
  cases hs : readText [] cs with
  | error e =>
      rw [hs] at h
      cases h
  | ok answer =>
      rw [hs] at h
      cases h
      obtain ⟨t, rfl, ht⟩ := exists_of_readText hs
      exact ⟨'"' :: t, rfl, .inr ⟨t, rfl, ht⟩⟩

theorem not_isFault_quote (h : readValue fuel depth ('"' :: cs) = .error e) : ¬ e.IsFault := by
  rw [readValue_quote] at h
  cases hs : readText [] cs with
  | error e' =>
      rw [hs] at h
      cases h
      exact not_isFault_readText hs
  | ok answer =>
      rw [hs] at h
      cases h

theorem exists_flat_of_other (hcs : cs.head? ∉ [some '"', some '[', some '{'])
    (h : readValue fuel depth cs = .ok (v, rest)) : ∃ t, cs = t ++ rest ∧ IsFlat t := by
  rw [readValue_other hcs] at h
  obtain ⟨t, rfl, ht⟩ := exists_of_readScalar h
  exact ⟨t, rfl, .inl ht⟩

theorem exists_overlong_of_other (hcs : cs.head? ∉ [some '"', some '[', some '{'])
    (h : readValue fuel depth cs = .error e) (he : e.IsFault) :
    ∃ count, e = .tooManyDigits count ∧ Overlong count cs := by
  rw [readValue_other hcs] at h
  exact readScalar_isFault_iff.1 ⟨h, he⟩

theorem readValue_overlong {count : Nat} (h : Overlong count cs) :
    readValue fuel depth cs = .error (.tooManyDigits count) := by
  have hcs := h.startsScalar.head? []
  rw [List.append_nil] at hcs
  rw [readValue_other hcs]
  exact (readScalar_isFault_iff.2 ⟨count, rfl, h⟩).1

end

/-! ### Values of any depth -/

/-- At depth zero there are texts and scalars only, and every bracket is one too many. -/
theorem reads_readValue_zero (fuel : Nat) :
    Reads fuel (readValue fuel 0) (Written 0) (Faulty 0) where
  sound {cs rest v} h := by
    rcases head_cases cs with ⟨cs, rfl⟩ | ⟨cs, rfl⟩ | ⟨cs, rfl⟩ | hcs
    · exact exists_flat_of_quote h
    · cases h
    · cases h
    · exact exists_flat_of_other hcs h
  complete ht hrest _ := exists_readValue_flat ht hrest
  faulty {cs e} h he := by
    rcases head_cases cs with ⟨cs, rfl⟩ | ⟨cs, rfl⟩ | ⟨cs, rfl⟩ | hcs
    · exact absurd he (not_isFault_quote h)
    · cases h
      exact .inr (.inl ⟨rfl, rfl⟩)
    · cases h
      exact .inr (.inr ⟨rfl, rfl⟩)
    · exact .inl (exists_overlong_of_other hcs h he)
  fails {cs e} h _ := by
    rcases h with ⟨count, rfl, h⟩ | ⟨rfl, h⟩ | ⟨rfl, h⟩
    · exact ⟨readValue_overlong h, trivial⟩
    · obtain ⟨cs, rfl⟩ := List.head?_eq_some_iff.1 h
      exact ⟨rfl, trivial⟩
    · obtain ⟨cs, rfl⟩ := List.head?_eq_some_iff.1 h
      exact ⟨rfl, trivial⟩
  token_starts := Written.startsPart
  fault_starts := Faulty.startsPart

/-- One level further in, an array or an object is read if its items or members are. -/
theorem reads_readValue_succ {fuel depth : Nat}
    (ih : Reads fuel (readValue fuel depth) (Written depth) (Faulty depth)) :
    Reads fuel (readValue fuel (depth + 1)) (Written (depth + 1)) (Faulty (depth + 1)) where
  sound {cs rest v} h := by
    rcases head_cases cs with ⟨cs, rfl⟩ | ⟨cs, rfl⟩ | ⟨cs, rfl⟩ | hcs
    · obtain ⟨t, heq, ht⟩ := exists_flat_of_quote h
      exact ⟨t, heq, .inl ht⟩
    · rw [readValue_array] at h
      obtain ⟨t, rfl, ht⟩ := ih.exists_of_readEnclosed h
      exact ⟨'[' :: t, rfl, .inr (.inl ⟨t, rfl, ht⟩)⟩
    · rw [readValue_object] at h
      obtain ⟨t, rfl, ht⟩ := ih.member.exists_of_readEnclosed h
      exact ⟨'{' :: t, rfl, .inr (.inr ⟨t, rfl, ht⟩)⟩
    · obtain ⟨t, heq, ht⟩ := exists_flat_of_other hcs h
      exact ⟨t, heq, .inl ht⟩
  complete {t rest} ht hrest hbound := by
    rcases ht with ht | ⟨cs, rfl, hcs⟩ | ⟨cs, rfl, hcs⟩
    · exact exists_readValue_flat ht hrest
    · -- The bracket is a character too, so what follows it is shorter than the fuel.
      rw [List.cons_append, readValue_array]
      exact ih.exists_readEnclosed_eq_ok (.inl rfl) hcs (Nat.le_of_succ_le hbound) hbound
    · rw [List.cons_append, readValue_object]
      exact ih.member.exists_readEnclosed_eq_ok (.inr rfl) hcs (Nat.le_of_succ_le hbound) hbound
  faulty {cs e} h he := by
    rcases head_cases cs with ⟨cs, rfl⟩ | ⟨cs, rfl⟩ | ⟨cs, rfl⟩ | hcs
    · exact absurd he (not_isFault_quote h)
    · rw [readValue_array] at h
      exact .inr (.inl ⟨cs, rfl, ih.faultyContent_of_readEnclosed h he⟩)
    · rw [readValue_object] at h
      exact .inr (.inr ⟨cs, rfl, ih.member.faultyContent_of_readEnclosed h he⟩)
    · exact .inl (exists_overlong_of_other hcs h he)
  fails {cs e} h hbound := by
    rcases h with ⟨count, rfl, h⟩ | ⟨cs, rfl, hcs⟩ | ⟨cs, rfl, hcs⟩
    · exact ⟨readValue_overlong h, trivial⟩
    · rw [readValue_array]
      exact ih.readEnclosed_eq_error (.inl rfl) hcs (Nat.le_of_succ_le hbound) hbound
    · rw [readValue_object]
      exact ih.member.readEnclosed_eq_error (.inr rfl) hcs (Nat.le_of_succ_le hbound) hbound
  token_starts := Written.startsPart
  fault_starts := Faulty.startsPart

/-- A reader of values reads exactly the values of its depth, and finds exactly the faults. -/
theorem reads_readValue (fuel depth : Nat) :
    Reads fuel (readValue fuel depth) (Written depth) (Faulty depth) := by
  induction depth with
  | zero => exact reads_readValue_zero fuel
  | succ depth ih => exact reads_readValue_succ ih

/-! ### Whole texts -/

/-- A value that may be read, with white space around it. -/
def IsJson (cs : List Char) : Prop :=
  ∃ gap t gap', cs = gap ++ (t ++ gap') ∧ IsSpaces gap ∧ Written maxDepth t ∧ IsSpaces gap'

/-- A text with a fault that reading comes to. -/
def HasFault (cs : List Char) (e : ReadError) : Prop :=
  ∃ gap rest, cs = gap ++ rest ∧ IsSpaces gap ∧ Faulty maxDepth rest e

/-- How a text is read that starts with no mark. -/
def readWhole (cs : List Char) : Except ReadError Value :=
  match readValue cs.length maxDepth (skipSpace cs) with
  | .error e => .error e
  | .ok (v, rest) => if (skipSpace rest).isEmpty then .ok v else .error (.malformed .extraData)

theorem read_eq_or (cs : List Char) :
    Value.read cs = .error (.malformed .byteOrderMark) ∨ Value.read cs = readWhole cs := by
  unfold Value.read
  split
  · exact .inl rfl
  · exact .inr rfl

theorem read_eq_readWhole {gap cs : List Char} (hgap : IsSpaces gap) (hcs : StartsPart cs) :
    Value.read (gap ++ cs) = readWhole (gap ++ cs) := by
  unfold Value.read
  split
  · next rest heq =>
    obtain ⟨c, more, rfl, hc⟩ := hcs
    cases gap with
    | nil =>
        cases heq
        exact absurd rfl hc.2.2.2
    | cons d gap =>
        cases heq
        exact absurd (hgap _ (.head _)) (by decide)
  · rfl

theorem readWhole_eq_ok_iff {cs : List Char} {v : Value} :
    readWhole cs = .ok v ↔ ∃ rest, readValue cs.length maxDepth (skipSpace cs) = .ok (v, rest) ∧
      skipSpace rest = [] := by
  unfold readWhole
  cases readValue cs.length maxDepth (skipSpace cs) with
  | error e => simp
  | ok answer =>
      obtain ⟨v', rest⟩ := answer
      by_cases hrest : skipSpace rest = []
      · simp only [List.isEmpty_iff, if_pos hrest]
        constructor
        · rintro ⟨⟩
          exact ⟨rest, rfl, hrest⟩
        · rintro ⟨_, ⟨⟩, -⟩
          rfl
      · simp only [List.isEmpty_iff, if_neg hrest]
        constructor
        · rintro ⟨⟩
        · rintro ⟨_, ⟨⟩, hnil⟩
          exact absurd hnil hrest

theorem readWhole_isFault_iff {cs : List Char} {e : ReadError} :
    readWhole cs = .error e ∧ e.IsFault ↔
      readValue cs.length maxDepth (skipSpace cs) = .error e ∧ e.IsFault := by
  unfold readWhole
  cases readValue cs.length maxDepth (skipSpace cs) with
  | error e' => simp
  | ok answer =>
      constructor
      · rintro ⟨h, he⟩
        dsimp only at h
        split at h
        · cases h
        · cases h
          exact he.elim
      · rintro ⟨⟨⟩, -⟩

/-- The texts that are JSON are read, and no others. -/
theorem Value.read_isOk_iff {cs : List Char} : (∃ v, Value.read cs = .ok v) ↔ IsJson cs := by
  constructor
  · rintro ⟨v, h⟩
    rcases read_eq_or cs with heq | heq
    · rw [heq] at h
      cases h
    · rw [heq] at h
      obtain ⟨rest, hread, hrest⟩ := readWhole_eq_ok_iff.1 h
      obtain ⟨t, hskip, ht⟩ := (reads_readValue cs.length maxDepth).sound hread
      obtain ⟨gap, hgap, hsplit⟩ := exists_gap_skipSpace cs
      obtain ⟨gap', hgap', hsplit'⟩ := exists_gap_skipSpace rest
      rw [hrest, List.append_nil] at hsplit'
      subst hsplit'
      exact ⟨gap, t, rest, by rw [← hskip, ← hsplit], hgap, ht, hgap'⟩
  · rintro ⟨gap, t, gap', rfl, hgap, ht, hgap'⟩
    have hskip : skipSpace (gap ++ (t ++ gap')) = t ++ gap' := by
      rw [skipSpace_append hgap,
        skipSpace_of_startsSolid (ht.startsPart.append gap').startsSolid]
    have hends : EndsValue gap' := fun c hc => .inl (hgap' c (List.mem_of_mem_head? hc))
    obtain ⟨v, hv⟩ := (reads_readValue (gap ++ (t ++ gap')).length maxDepth).complete ht hends
      (by simp)
    refine ⟨v, ?_⟩
    rw [read_eq_readWhole hgap (ht.startsPart.append gap')]
    refine readWhole_eq_ok_iff.2 ⟨gap', by rw [hskip, hv], ?_⟩
    rw [← List.append_nil gap', skipSpace_append hgap']
    rfl

/-- The texts with a fault are those on which reading fails with this fault. -/
theorem Value.read_isFault_iff {cs : List Char} {e : ReadError} :
    Value.read cs = .error e ∧ e.IsFault ↔ HasFault cs e := by
  constructor
  · rintro ⟨h, he⟩
    rcases read_eq_or cs with heq | heq
    · rw [heq] at h
      cases h
      exact he.elim
    · rw [heq] at h
      obtain ⟨hread, -⟩ := readWhole_isFault_iff.1 ⟨h, he⟩
      obtain ⟨gap, hgap, hsplit⟩ := exists_gap_skipSpace cs
      exact ⟨gap, skipSpace cs, hsplit, hgap,
        (reads_readValue cs.length maxDepth).faulty hread he⟩
  · rintro ⟨gap, rest, rfl, hgap, hrest⟩
    have hskip : skipSpace (gap ++ rest) = rest := by
      rw [skipSpace_append hgap, skipSpace_of_startsSolid hrest.startsPart.startsSolid]
    rw [read_eq_readWhole hgap hrest.startsPart]
    refine readWhole_isFault_iff.2 ?_
    rw [hskip]
    exact (reads_readValue (gap ++ rest).length maxDepth).fails hrest (by simp)

end CurlWarden.Json
