import CurlWarden.Proofs.Json.Scalar

/-!
# JSON texts in quotes

`Unquoted` says which characters make up a text from its opening quote on: plain characters,
two-character escapes and escapes by code unit, up to and with the closing quote. `readText` reads
exactly that, and what it rejects is malformed and never a fault.

The one difficulty is a pair of escapes that form one character. The reader takes both at once, so
what is read off in one step may be two steps of the grammar, and the proofs go by length.
-/

namespace CurlWarden.Json

/-- The characters of a text after its opening quote, with the closing one. -/
inductive Unquoted : List Char → Prop where
  | close : Unquoted ['"']
  | plain {c : Char} {cs : List Char} (hquote : c ≠ '"') (hslash : c ≠ '\\')
      (hcontrol : 0x1F < c.toNat) : Unquoted cs → Unquoted (c :: cs)
  | escape {c : Char} {cs : List Char} (h : c ∈ ['"', '\\', '/', 'b', 'f', 'n', 'r', 't']) :
      Unquoted cs → Unquoted ('\\' :: c :: cs)
  | unit {a b c d : Char} {cs : List Char} (h : (unit? a b c d).isSome) :
      Unquoted cs → Unquoted ('\\' :: 'u' :: a :: b :: c :: d :: cs)

/-- A text with both of its quotes. -/
def IsQuoted (t : List Char) : Prop := ∃ cs, t = '"' :: cs ∧ Unquoted cs

/-- What follows a backslash, with the rest of the text. -/
theorem Unquoted.of_backslash {cs : List Char} (h : Unquoted ('\\' :: cs)) :
    (∃ c rest, cs = c :: rest ∧ c ∈ ['"', '\\', '/', 'b', 'f', 'n', 'r', 't'] ∧ Unquoted rest) ∨
      ∃ a b c d rest, cs = 'u' :: a :: b :: c :: d :: rest ∧ (unit? a b c d).isSome ∧
        Unquoted rest := by
  cases h with
  | plain hquote hslash => exact absurd rfl hslash
  | escape hmem h => exact .inl ⟨_, _, rfl, hmem, h⟩
  | unit hunit h => exact .inr ⟨_, _, _, _, _, rfl, hunit, h⟩

/-- A text goes on until its closing quote. -/
theorem Unquoted.exists_cons {cs : List Char} (h : Unquoted cs) : ∃ c rest, cs = c :: rest := by
  cases h <;> exact ⟨_, _, rfl⟩

/-! ### Escapes -/

/-- A low surrogate that is joined is a whole escape. -/
theorem joinSurrogate?_eq_some {high : Nat} {cs rest : List Char} {c : CodePoint}
    (h : joinSurrogate? high cs = some (c, rest)) :
    ∃ a b c' d, cs = '\\' :: 'u' :: a :: b :: c' :: d :: rest ∧ (unit? a b c' d).isSome := by
  unfold joinSurrogate? at h
  split at h
  · next a b c' d e more =>
    split at h
    · next hunit =>
      simp only [Option.ite_none_right_eq_some, Option.some.injEq, Prod.mk.injEq] at h
      obtain ⟨-, -, rfl⟩ := h
      exact ⟨a, b, c', d, rfl, by rw [hunit]; rfl⟩
    · cases h
  · cases h

/-- What an escape by code unit takes off the text: four digits, and perhaps another such escape. -/
theorem readUnit_eq_ok {cs rest : List Char} {ch : CodePoint} (h : readUnit cs = .ok (ch, rest)) :
    ∃ a b c d more, cs = a :: b :: c :: d :: more ∧ (unit? a b c d).isSome ∧
      (rest = more ∨ ∃ high, joinSurrogate? high more = some (ch, rest)) := by
  unfold readUnit at h
  split at h
  · next a b c d e more =>
    split at h
    · cases h
    · next unit hunit =>
      refine ⟨a, b, c, d, e :: more, rfl, by rw [hunit]; rfl, ?_⟩
      split at h
      · split at h
        · next joined hjoined =>
          cases h
          exact .inr ⟨unit, hjoined⟩
        · cases h
          exact .inl rfl
      · cases h
        exact .inl rfl
  · cases h

/-- Four digits that some text follows are read as an escape. -/
theorem exists_readUnit {a b c d : Char} {more : List Char} (hunit : (unit? a b c d).isSome)
    (hmore : more ≠ []) : ∃ read, readUnit (a :: b :: c :: d :: more) = .ok read := by
  obtain ⟨e, more, rfl⟩ := List.exists_cons_of_ne_nil hmore
  obtain ⟨unit, hunit⟩ := Option.isSome_iff_exists.1 hunit
  unfold readUnit
  simp only [hunit]
  split
  · split
    · exact ⟨_, rfl⟩
    · exact ⟨_, rfl⟩
  · exact ⟨_, rfl⟩

/-- What follows a backslash is an escape of one or of the other kind. -/
theorem readEscape_eq_ok {cs rest : List Char} {ch : CodePoint}
    (h : readEscape cs = .ok (ch, rest)) :
    (∃ c ∈ ['"', '\\', '/', 'b', 'f', 'n', 'r', 't'], cs = c :: rest) ∨
      ∃ more, cs = 'u' :: more ∧ readUnit more = .ok (ch, rest) := by
  unfold readEscape at h
  split at h
  · cases h
  · next more => exact .inr ⟨more, rfl, h⟩
  · next c more hu =>
    refine .inl ?_
    split at h
    all_goals first | cases h; exact ⟨_, by decide, rfl⟩ | cases h

/-- The two-character escapes are read. -/
theorem exists_readEscape {c : Char} (h : c ∈ ['"', '\\', '/', 'b', 'f', 'n', 'r', 't'])
    (cs : List Char) : ∃ ch, readEscape (c :: cs) = .ok (ch, cs) := by
  simp only [List.mem_cons, List.not_mem_nil, or_false] at h
  rcases h with rfl | rfl | rfl | rfl | rfl | rfl | rfl | rfl
  all_goals exact ⟨_, rfl⟩

/-! ### Texts -/

/-- An escape that has been read off, put back in front of the rest of a text. -/
theorem exists_unquoted_escape {cs rest : List Char} {ch : CodePoint}
    (h : readEscape cs = .ok (ch, rest)) {t more : List Char} (hrest : rest = t ++ more)
    (ht : Unquoted t) : ∃ t', '\\' :: cs = t' ++ more ∧ Unquoted t' := by
  subst hrest
  rcases readEscape_eq_ok h with ⟨c, hmem, rfl⟩ | ⟨cs, rfl, hunit⟩
  · exact ⟨'\\' :: c :: t, rfl, .escape hmem ht⟩
  · obtain ⟨a, b, c, d, cs, rfl, hvalue, rfl | ⟨high, hjoin⟩⟩ := readUnit_eq_ok hunit
    · exact ⟨_, rfl, .unit hvalue ht⟩
    · -- Both halves of a pair were read at once; each is an escape of its own.
      obtain ⟨a', b', c', d', rfl, hvalue'⟩ := joinSurrogate?_eq_some hjoin
      exact ⟨_, rfl, .unit hvalue (.unit hvalue' ht)⟩

/-- What is read is a text with its closing quote. -/
theorem exists_of_readText {read s : CodePoints} {cs rest : List Char}
    (h : readText read cs = .ok (s, rest)) : ∃ t, cs = t ++ rest ∧ Unquoted t := by
  fun_induction readText read cs with
  | case1 => cases h
  | case2 read cs =>
      cases h
      exact ⟨['"'], rfl, .close⟩
  | case3 read cs c more heq ih =>
      obtain ⟨t, hmore, ht⟩ := ih h
      exact exists_unquoted_escape heq hmore ht
  | case4 read cs e heq => cases h
  | case5 => cases h
  | case6 read c cs hquote hslash hcontrol ih =>
      obtain ⟨t, rfl, ht⟩ := ih h
      exact ⟨c :: t, rfl, .plain hquote hslash (by omega) ht⟩

/-- A low surrogate at the front of a text is one of the escapes of the text. -/
theorem Unquoted.of_joinSurrogate? {high : Nat} {t rest more : List Char} {ch : CodePoint}
    (ht : Unquoted t) (h : joinSurrogate? high (t ++ rest) = some (ch, more)) :
    ∃ t', more = t' ++ rest ∧ Unquoted t' ∧ t'.length < t.length := by
  obtain ⟨a, b, c, d, heq, -⟩ := joinSurrogate?_eq_some h
  obtain ⟨c₀, t, rfl⟩ := ht.exists_cons
  obtain ⟨rfl, heq⟩ : c₀ = '\\' ∧ t ++ rest = 'u' :: a :: b :: c :: d :: more := by
    simpa using heq
  rcases ht.of_backslash with ⟨c₁, t, rfl, hmem, ht⟩ | ⟨a', b', c', d', t, rfl, -, ht⟩
  · obtain ⟨rfl, -⟩ : c₁ = 'u' ∧ _ := by simpa using heq
    exact absurd hmem (by decide)
  · obtain ⟨-, -, -, -, rfl⟩ : a' = a ∧ b' = b ∧ c' = c ∧ d' = d ∧ t ++ rest = more := by
      simpa only [List.cons_append, List.cons.injEq, true_and] using heq
    exact ⟨t, rfl, ht, by simp only [List.length_cons]; omega⟩

/-- An escape is read off a text, and what is left is the end of the text. -/
theorem Unquoted.exists_readEscape {cs : List Char} (h : Unquoted ('\\' :: cs))
    (rest : List Char) :
    ∃ ch t, readEscape (cs ++ rest) = .ok (ch, t ++ rest) ∧ Unquoted t ∧ t.length < cs.length := by
  rcases h.of_backslash with ⟨c, t, rfl, hmem, ht⟩ | ⟨a, b, c, d, t, rfl, hvalue, ht⟩
  · obtain ⟨ch, hread⟩ := CurlWarden.Json.exists_readEscape hmem (t ++ rest)
    exact ⟨ch, t, hread, ht, by simp⟩
  · have hne : t ++ rest ≠ [] := by
      obtain ⟨_, _, rfl⟩ := ht.exists_cons
      exact List.cons_ne_nil _ _
    obtain ⟨⟨ch, more⟩, hread⟩ := exists_readUnit hvalue hne
    obtain ⟨_, _, _, _, _, ⟨⟩, -, rfl | ⟨high, hjoin⟩⟩ := readUnit_eq_ok hread
    · exact ⟨ch, t, hread, ht, by simp only [List.length_cons]; omega⟩
    · obtain ⟨t', rfl, ht', hlength⟩ := ht.of_joinSurrogate? hjoin
      exact ⟨ch, t', hread, ht', by simp only [List.length_cons]; omega⟩

theorem readText_quote (read : CodePoints) (cs : List Char) :
    readText read ('"' :: cs) = .ok (read.reverse, cs) := by
  rw [readText]

theorem readText_escape {read : CodePoints} {cs rest : List Char} {ch : CodePoint}
    (h : readEscape cs = .ok (ch, rest)) :
    readText read ('\\' :: cs) = readText (ch :: read) rest := by
  rw [readText]
  split <;> simp_all

theorem readText_plain {read : CodePoints} {cs : List Char} {c : Char} (hquote : c ≠ '"')
    (hslash : c ≠ '\\') (hcontrol : 0x1F < c.toNat) :
    readText read (c :: cs) = readText (.char c :: read) cs := by
  rw [readText, if_neg (by omega)]
  all_goals simpa

/-- A text up to its closing quote is read. -/
theorem readText_append {t : List Char} (ht : Unquoted t) (read : CodePoints)
    (rest : List Char) :
    ∃ s, readText read (t ++ rest) = .ok (s, rest) := by
  -- By length, and not on `ht`: a pair of escapes is two steps of `Unquoted` and one of the reader.
  induction hn : t.length using Nat.strongRecOn generalizing t read with
  | _ n ih =>
    subst hn
    have hescape : ∀ {cs}, t = '\\' :: cs → ∃ s, readText read (t ++ rest) = .ok (s, rest) := by
      rintro cs rfl
      obtain ⟨ch, t', hread, ht', hlength⟩ := ht.exists_readEscape rest
      rw [List.cons_append, readText_escape hread]
      exact ih _ (Nat.lt_succ_of_lt hlength) ht' _ rfl
    cases ht with
    | close => exact ⟨_, readText_quote _ _⟩
    | plain hquote hslash hcontrol ht =>
        rw [List.cons_append, readText_plain hquote hslash hcontrol]
        exact ih _ (Nat.lt_succ_self _) ht _ rfl
    | escape hmem ht => exact hescape rfl
    | unit hvalue ht => exact hescape rfl

/-! ### Malformed texts -/

theorem not_isFault_readUnit {cs : List Char} {e : ReadError} (h : readUnit cs = .error e) :
    ¬ e.IsFault := by
  unfold readUnit at h
  split at h
  · split at h
    · cases h
      exact id
    · split at h
      · split at h <;> cases h
      · cases h
  · cases h
    exact id

theorem not_isFault_readEscape {cs : List Char} {e : ReadError} (h : readEscape cs = .error e) :
    ¬ e.IsFault := by
  unfold readEscape at h
  split at h
  · cases h
    exact id
  · exact not_isFault_readUnit h
  · split at h
    all_goals cases h
    exact id

/-- A text that is not read is malformed. -/
theorem not_isFault_readText {read : CodePoints} {cs : List Char} {e : ReadError}
    (h : readText read cs = .error e) : ¬ e.IsFault := by
  fun_induction readText read cs with
  | case1 =>
      cases h
      exact id
  | case2 => cases h
  | case3 read cs c rest heq ih => exact ih h
  | case4 read cs e' heq =>
      cases h
      exact not_isFault_readEscape heq
  | case5 =>
      cases h
      exact id
  | case6 read c cs hquote hslash hcontrol ih => exact ih h

end CurlWarden.Json
