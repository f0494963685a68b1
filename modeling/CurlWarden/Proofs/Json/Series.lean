import CurlWarden.Proofs.Json.Quoted

/-!
# Series of values

Arrays and objects are read by the same loop: a part, then a comma and the next part, or the closing
bracket. `readSeries` is this loop for parts of any kind, and `readItems_eq` and `readMembers_eq`
say that the two readers are cases of it.

What a reader of parts does is stated by `Reads`: the parts that it reads, and the texts on which it
fails with a fault. The statements of this module carry `Reads` from the parts to members
(`Reads.member`) and to whole arrays and objects (`Reads.exists_of_readEnclosed` and what follows
it), so that nothing about values as such is needed here.
-/

namespace CurlWarden.Json

variable {α : Type}

/-- The text starts with something that is neither white space nor a closing bracket nor the mark
that may not stand before JSON. -/
def StartsPart (cs : List Char) : Prop :=
  ∃ c rest, cs = c :: rest ∧ isSpace c = false ∧ c ≠ ']' ∧ c ≠ '}' ∧ c ≠ '\uFEFF'

/-- What a reader does on texts of at most `bound` characters: it takes a `Token` off the front of
a text, and it fails with a fault where `Fault` says so. -/
structure Reads (bound : Nat) (read : List Char → Read α) (Token : List Char → Prop)
    (Fault : List Char → ReadError → Prop) : Prop where
  sound : ∀ {cs rest v}, read cs = .ok (v, rest) → ∃ t, cs = t ++ rest ∧ Token t
  complete : ∀ {t rest}, Token t → EndsValue rest → (t ++ rest).length ≤ bound →
    ∃ v, read (t ++ rest) = .ok (v, rest)
  faulty : ∀ {cs e}, read cs = .error e → e.IsFault → Fault cs e
  fails : ∀ {cs e}, Fault cs e → cs.length ≤ bound → read cs = .error e ∧ e.IsFault
  token_starts : ∀ {t}, Token t → StartsPart t
  fault_starts : ∀ {cs e}, Fault cs e → StartsPart cs

/-! ### The grammar of parts -/

/-- Parts with a comma after each, up to where the next part starts. -/
inductive PartsBefore (Token : List Char → Prop) : List Char → Prop where
  | nil : PartsBefore Token []
  | cons {t gap gap' cs : List Char} (ht : Token t) (hgap : IsSpaces gap) (hgap' : IsSpaces gap') :
      PartsBefore Token cs → PartsBefore Token (t ++ (gap ++ ',' :: (gap' ++ cs)))

/-- What follows an opening bracket, up to and with the closing one. -/
def IsContent (close : Char) (Token : List Char → Prop) (cs : List Char) : Prop :=
  (∃ gap, cs = gap ++ [close] ∧ IsSpaces gap) ∨
    ∃ gap before last gap', cs = gap ++ (before ++ (last ++ (gap' ++ [close]))) ∧ IsSpaces gap ∧
      PartsBefore Token before ∧ Token last ∧ IsSpaces gap'

/-- What follows an opening bracket, where reading a part of it fails. -/
def FaultyContent (Token : List Char → Prop) (Fault : List Char → ReadError → Prop)
    (cs : List Char) (e : ReadError) : Prop :=
  ∃ gap before rest, cs = gap ++ (before ++ rest) ∧ IsSpaces gap ∧ PartsBefore Token before ∧
    Fault rest e

/-- A key in quotes and a value, with a colon between them. -/
def IsMember (Token : List Char → Prop) (cs : List Char) : Prop :=
  ∃ key gap gap' t, cs = key ++ (gap ++ ':' :: (gap' ++ t)) ∧ IsQuoted key ∧ IsSpaces gap ∧
    IsSpaces gap' ∧ Token t

/-- A key in quotes and a colon, where reading the value fails. -/
def FaultyMember (Fault : List Char → ReadError → Prop) (cs : List Char) (e : ReadError) : Prop :=
  ∃ key gap gap' rest, cs = key ++ (gap ++ ':' :: (gap' ++ rest)) ∧ IsQuoted key ∧ IsSpaces gap ∧
    IsSpaces gap' ∧ Fault rest e

/-! ### One loop for arrays and objects -/

/-- Reads parts up to `close`, where `read` holds those before, last first. -/
def readSeries (part : List Char → Read α) (close : Char) (finish : List α → Value) :
    (fuel : Nat) → (read : List α) → List Char → Read Value
  | 0, _, _ => .error (.malformed .value)
  | fuel + 1, read, cs =>
    match part cs with
    | .error e => .error e
    | .ok (v, rest) =>
      match skipSpace rest with
      | [] => .error (.malformed .comma)
      | c :: rest =>
        if c = close then .ok (finish (v :: read).reverse, rest)
        else if c = ',' then readSeries part close finish fuel (v :: read) (skipSpace rest)
        else .error (.malformed .comma)

/-- Reads what follows an opening bracket. -/
def readEnclosed (part : List Char → Read α) (close : Char) (finish : List α → Value)
    (fuel : Nat) (cs : List Char) : Read Value :=
  if (skipSpace cs).head? = some close then .ok (finish [], (skipSpace cs).drop 1)
  else readSeries part close finish fuel [] (skipSpace cs)

/-- Reads a key and its value. -/
def readMember (item : List Char → Read Value) (cs : List Char) : Read (CodePoints × Value) :=
  match cs with
  | '"' :: cs =>
    match readText [] cs with
    | .error e => .error e
    | .ok (key, rest) =>
      match skipSpace rest with
      | ':' :: rest =>
        match item (skipSpace rest) with
        | .error e => .error e
        | .ok (v, rest) => .ok ((key, v), rest)
      | _ => .error (.malformed .colon)
  | _ => .error (.malformed .propertyName)

theorem readItems_eq (item : List Char → Read Value) (fuel : Nat) (read : List Value)
    (cs : List Char) : readItems item fuel read cs = readSeries item ']' .list fuel read cs := by
  induction fuel generalizing read cs with
  | zero => rfl
  | succ fuel ih =>
      unfold readItems readSeries
      cases item cs with
      | error e => rfl
      | ok answer =>
          cases h : skipSpace answer.2 with
          | nil => simp [h]
          | cons c rest =>
              simp only [h]
              split <;> simp_all

theorem readMembers_of_error {item : List Char → Read Value} {fuel : Nat}
    {read : List (CodePoints × Value)} {cs : List Char} {e : ReadError}
    (h : readMember item cs = .error e) : readMembers item (fuel + 1) read cs = .error e := by
  unfold readMember at h
  unfold readMembers
  split at h
  · split at h
    · simp_all
    · split at h
      · split at h <;> simp_all
      · simp_all
  · simp_all

theorem readMembers_of_ok {item : List Char → Read Value} {fuel : Nat}
    {read : List (CodePoints × Value)} {cs rest : List Char} {m : CodePoints × Value}
    (h : readMember item cs = .ok (m, rest)) :
    readMembers item (fuel + 1) read cs =
      match skipSpace rest with
      | [] => .error (.malformed .comma)
      | c :: rest =>
        if c = '}' then .ok (.object (assignAll (m :: read).reverse), rest)
        else if c = ',' then readMembers item fuel (m :: read) (skipSpace rest)
        else .error (.malformed .comma) := by
  unfold readMember at h
  split at h
  · split at h
    · cases h
    · next hkey =>
      split at h
      · next hcolon =>
        split at h
        · cases h
        · next hitem =>
          cases h
          rw [readMembers]
          simp only [hkey, hcolon, hitem]
          cases skipSpace rest with
          | nil => rfl
          | cons c rest => split <;> simp_all
      · cases h
  · cases h

theorem readMembers_eq (item : List Char → Read Value) (fuel : Nat) (read : List (CodePoints × Value))
    (cs : List Char) : readMembers item fuel read cs =
      readSeries (readMember item) '}' (.object ∘ assignAll) fuel read cs := by
  induction fuel generalizing read cs with
  | zero => rfl
  | succ fuel ih =>
      rw [readSeries]
      cases hm : readMember item cs with
      | error e => exact readMembers_of_error hm
      | ok answer =>
          rw [readMembers_of_ok hm]
          simp only [ih, Function.comp_apply]

/-! ### Steps of the loop -/

section
variable {part : List Char → Read α} {close : Char} {finish : List α → Value} {fuel : Nat}
  {read : List α} {cs rest more : List Char} {v : α}

theorem readSeries_of_error {e : ReadError} (h : part cs = .error e) :
    readSeries part close finish (fuel + 1) read cs = .error e := by
  rw [readSeries, h]

theorem readSeries_of_close (h : part cs = .ok (v, rest)) (hrest : skipSpace rest = close :: more) :
    readSeries part close finish (fuel + 1) read cs = .ok (finish (v :: read).reverse, more) := by
  rw [readSeries, h]
  simp only [hrest, if_pos]

theorem readSeries_of_comma (hclose : close = ']' ∨ close = '}') (h : part cs = .ok (v, rest))
    (hrest : skipSpace rest = ',' :: more) :
    readSeries part close finish (fuel + 1) read cs =
      readSeries part close finish fuel (v :: read) (skipSpace more) := by
  have hne : ',' ≠ close := by
    rcases hclose with rfl | rfl <;> decide
  rw [readSeries, h]
  simp only [hrest, if_neg hne, if_pos]

/-- A part is followed by the closing bracket or by a comma, or else the text is malformed. -/
theorem readSeries_cases (h : part cs = .ok (v, rest)) :
    (∃ more, skipSpace rest = close :: more ∧
      readSeries part close finish (fuel + 1) read cs = .ok (finish (v :: read).reverse, more)) ∨
    (∃ more, skipSpace rest = ',' :: more ∧ readSeries part close finish (fuel + 1) read cs =
      readSeries part close finish fuel (v :: read) (skipSpace more)) ∨
    readSeries part close finish (fuel + 1) read cs = .error (.malformed .comma) := by
  cases hrest : skipSpace rest with
  | nil => exact .inr (.inr (by rw [readSeries, h]; simp only [hrest]))
  | cons c more =>
      by_cases hclose : c = close
      · subst hclose
        exact .inl ⟨more, rfl, readSeries_of_close h hrest⟩
      · by_cases hcomma : c = ','
        · refine .inr (.inl ⟨more, by rw [hcomma], ?_⟩)
          rw [readSeries, h]
          simp only [hrest, if_neg hclose, if_pos hcomma]
        · refine .inr (.inr ?_)
          rw [readSeries, h]
          simp only [hrest, if_neg hclose, if_neg hcomma]

end

/-! ### What may follow a part -/

theorem endsValue_append {gap rest : List Char} (hgap : IsSpaces gap) (hrest : EndsValue rest) :
    EndsValue (gap ++ rest) := by
  cases gap with
  | nil => exact hrest
  | cons c gap =>
      rintro d ⟨⟩
      exact .inl (hgap _ (.head _))

/-- A comma ends a value. -/
theorem endsValue_comma (rest : List Char) : EndsValue (',' :: rest) := by
  intro d hd
  cases hd
  exact .inr (.inl rfl)

/-- A closing bracket ends a value. -/
theorem endsValue_close {close : Char} (hclose : close = ']' ∨ close = '}') (rest : List Char) :
    EndsValue (close :: rest) := by
  intro d hd
  cases hd
  exact .inr (.inr hclose)

/-- A mark is not skipped. -/
theorem skipSpace_cons {c : Char} (hc : isSpace c = false) (rest : List Char) :
    skipSpace (c :: rest) = c :: rest :=
  skipSpace_of_startsSolid ⟨c, rest, rfl, hc⟩

theorem isSpace_close {close : Char} (hclose : close = ']' ∨ close = '}') :
    isSpace close = false := by
  rcases hclose with rfl | rfl <;> decide

theorem StartsPart.startsSolid {cs : List Char} (h : StartsPart cs) : StartsSolid cs := by
  obtain ⟨c, rest, rfl, hc, -⟩ := h
  exact ⟨c, rest, rfl, hc⟩

theorem StartsPart.append {cs : List Char} (h : StartsPart cs) (rest : List Char) :
    StartsPart (cs ++ rest) := by
  obtain ⟨c, more, rfl, hc⟩ := h
  exact ⟨c, more ++ rest, rfl, hc⟩

/-! ### What the loop reads -/

namespace Reads

variable {bound : Nat} {part : List Char → Read α} {Token : List Char → Prop}
  {Fault : List Char → ReadError → Prop} {close : Char} {finish : List α → Value} {fuel : Nat}
  {read : List α} {cs rest : List Char} {v : Value} {e : ReadError}

/-- A part that has been read, and the white space after it. -/
theorem exists_of_skipSpace {v : α} {more : List Char} (h : Reads bound part Token Fault)
    (hpart : part cs = .ok (v, rest)) (hrest : skipSpace rest = more) :
    ∃ t gap, cs = t ++ (gap ++ more) ∧ Token t ∧ IsSpaces gap := by
  obtain ⟨t, rfl, ht⟩ := h.sound hpart
  obtain ⟨gap, hgap, heq⟩ := exists_gap_skipSpace rest
  exact ⟨t, gap, by rw [← hrest, ← heq], ht, hgap⟩

/-- A part that has been read, up to where the next one starts. -/
theorem exists_of_comma {v : α} {more : List Char} (h : Reads bound part Token Fault)
    (hpart : part cs = .ok (v, rest)) (hrest : skipSpace rest = ',' :: more) :
    ∃ t gap gap', cs = t ++ (gap ++ ',' :: (gap' ++ skipSpace more)) ∧ Token t ∧ IsSpaces gap ∧
      IsSpaces gap' := by
  obtain ⟨t, gap, rfl, ht, hgap⟩ := h.exists_of_skipSpace hpart hrest
  obtain ⟨gap', hgap', heq⟩ := exists_gap_skipSpace more
  exact ⟨t, gap, gap', by rw [← heq], ht, hgap, hgap'⟩

/-- The parts that the loop reads, with the closing bracket. -/
theorem exists_of_readSeries (h : Reads bound part Token Fault)
    (hread : readSeries part close finish fuel read cs = .ok (v, rest)) :
    ∃ before last gap, cs = before ++ (last ++ (gap ++ close :: rest)) ∧
      PartsBefore Token before ∧ Token last ∧ IsSpaces gap := by
  induction fuel generalizing read cs with
  | zero => cases hread
  | succ fuel ih =>
      cases hpart : part cs with
      | error e =>
          rw [readSeries_of_error hpart] at hread
          cases hread
      | ok answer =>
          obtain ⟨m, after⟩ := answer
          rcases readSeries_cases hpart with ⟨more, hskip, heq⟩ | ⟨more, hskip, heq⟩ | heq
          · rw [heq] at hread
            cases hread
            obtain ⟨t, gap, rfl, ht, hgap⟩ := h.exists_of_skipSpace hpart hskip
            exact ⟨[], t, gap, rfl, .nil, ht, hgap⟩
          · rw [heq] at hread
            obtain ⟨t, gap, gap', rfl, ht, hgap, hgap'⟩ := h.exists_of_comma hpart hskip
            obtain ⟨before, last, gap₀, hmore, hbefore, hlast, hgap₀⟩ := ih hread
            refine ⟨_, last, gap₀, ?_, .cons ht hgap hgap' hbefore, hlast, hgap₀⟩
            rw [hmore]
            simp only [List.append_assoc, List.cons_append]
          · rw [heq] at hread
            cases hread

/-- Where the loop fails with a fault, a part does. -/
theorem exists_fault_of_readSeries (h : Reads bound part Token Fault)
    (hread : readSeries part close finish fuel read cs = .error e) (he : e.IsFault) :
    ∃ before rest, cs = before ++ rest ∧ PartsBefore Token before ∧ Fault rest e := by
  induction fuel generalizing read cs with
  | zero =>
      cases hread
      exact he.elim
  | succ fuel ih =>
      cases hpart : part cs with
      | error e' =>
          rw [readSeries_of_error hpart] at hread
          cases hread
          exact ⟨[], cs, rfl, .nil, h.faulty hpart he⟩
      | ok answer =>
          obtain ⟨m, after⟩ := answer
          rcases readSeries_cases hpart with ⟨more, hskip, heq⟩ | ⟨more, hskip, heq⟩ | heq
          · rw [heq] at hread
            cases hread
          · rw [heq] at hread
            obtain ⟨t, gap, gap', rfl, ht, hgap, hgap'⟩ := h.exists_of_comma hpart hskip
            obtain ⟨before, rest, hmore, hbefore, hrest⟩ := ih hread
            refine ⟨_, rest, ?_, .cons ht hgap hgap' hbefore, hrest⟩
            rw [hmore]
            simp only [List.append_assoc, List.cons_append]
          · rw [heq] at hread
            cases hread
            exact he.elim

/-- Parts with a comma after each start with a part, if what follows them does. -/
theorem startsPart_append (h : Reads bound part Token Fault) {before : List Char}
    (hbefore : PartsBefore Token before) (hrest : StartsPart rest) :
    StartsPart (before ++ rest) := by
  cases hbefore with
  | nil => exact hrest
  | cons ht => exact ((h.token_starts ht).append _).append _

/-- One round of the loop. -/
theorem exists_readSeries_comma (h : Reads bound part Token Fault) (finish : List α → Value)
    (fuel : Nat) (read : List α) (hclose : close = ']' ∨ close = '}') {t gap gap' : List Char}
    (ht : Token t) (hgap : IsSpaces gap) (hgap' : IsSpaces gap') (hrest : StartsPart rest)
    (hbound : (t ++ (gap ++ ',' :: (gap' ++ rest))).length ≤ bound) :
    ∃ m, readSeries part close finish (fuel + 1) read (t ++ (gap ++ ',' :: (gap' ++ rest))) =
      readSeries part close finish fuel (m :: read) rest := by
  obtain ⟨m, hm⟩ := h.complete ht (endsValue_append hgap (endsValue_comma _)) hbound
  have hcomma : skipSpace (gap ++ ',' :: (gap' ++ rest)) = ',' :: (gap' ++ rest) := by
    rw [skipSpace_append hgap, skipSpace_cons (by decide)]
  refine ⟨m, ?_⟩
  rw [readSeries_of_comma hclose hm hcomma, skipSpace_append hgap',
    skipSpace_of_startsSolid hrest.startsSolid]

/-- The loop comes through all the parts that have a comma after them. -/
theorem exists_readSeries_append (h : Reads bound part Token Fault) (finish : List α → Value)
    (read : List α) (hclose : close = ']' ∨ close = '}') {before : List Char}
    (hbefore : PartsBefore Token before)
    (hrest : StartsPart rest) (hbound : (before ++ rest).length ≤ bound)
    (hfuel : before.length < fuel) :
    ∃ left read', readSeries part close finish fuel read (before ++ rest) =
      readSeries part close finish (left + 1) read' rest := by
  induction hbefore generalizing fuel read with
  | nil =>
      obtain ⟨left, rfl⟩ := Nat.exists_eq_add_of_lt hfuel
      exact ⟨_, read, by rw [List.nil_append, List.length_nil, Nat.zero_add]⟩
  | @cons t gap gap' before ht hgap hgap' hbefore ih =>
      have htext : t ++ (gap ++ ',' :: (gap' ++ before)) ++ rest =
          t ++ (gap ++ ',' :: (gap' ++ (before ++ rest))) := by
        simp only [List.append_assoc, List.cons_append]
      rw [htext] at hbound ⊢
      -- A round costs one unit of fuel and takes the comma at least, so the fuel lasts.
      simp only [List.length_append, List.length_cons] at hbound hfuel
      obtain ⟨fuel, rfl⟩ : ∃ k, fuel = k + 1 := ⟨fuel - 1, by omega⟩
      obtain ⟨m, hm⟩ := h.exists_readSeries_comma finish fuel read hclose ht hgap hgap'
        (h.startsPart_append hbefore hrest)
        (by simp only [List.length_append, List.length_cons]; omega)
      rw [hm]
      exact ih _ (by simp only [List.length_append]; omega) (by omega)

/-- Parts up to the closing bracket are read. -/
theorem exists_readSeries_eq_ok (h : Reads bound part Token Fault)
    (hclose : close = ']' ∨ close = '}') {before last gap : List Char}
    (hbefore : PartsBefore Token before) (hlast : Token last) (hgap : IsSpaces gap)
    (hbound : (before ++ (last ++ (gap ++ close :: rest))).length ≤ bound)
    (hfuel : before.length < fuel) :
    ∃ v, readSeries part close finish fuel read (before ++ (last ++ (gap ++ close :: rest))) =
      .ok (v, rest) := by
  obtain ⟨left, read', hloop⟩ := h.exists_readSeries_append finish read hclose
    hbefore ((h.token_starts hlast).append _) hbound hfuel
  rw [List.length_append] at hbound
  obtain ⟨m, hm⟩ := h.complete hlast (endsValue_append hgap (endsValue_close hclose rest))
    (by omega)
  rw [hloop]
  exact ⟨_, readSeries_of_close hm
    (by rw [skipSpace_append hgap, skipSpace_cons (isSpace_close hclose)])⟩

/-- Where a part fails with a fault, the loop does. -/
theorem readSeries_eq_error (h : Reads bound part Token Fault)
    (hclose : close = ']' ∨ close = '}') {before : List Char} (hbefore : PartsBefore Token before)
    (hrest : Fault rest e) (hbound : (before ++ rest).length ≤ bound)
    (hfuel : before.length < fuel) :
    readSeries part close finish fuel read (before ++ rest) = .error e ∧ e.IsFault := by
  obtain ⟨left, read', hloop⟩ := h.exists_readSeries_append finish read hclose
    hbefore (h.fault_starts hrest) hbound hfuel
  rw [List.length_append] at hbound
  obtain ⟨herror, he⟩ := h.fails hrest (by omega)
  rw [hloop]
  exact ⟨readSeries_of_error herror, he⟩

/-! ### What stands between brackets -/

/-- What is read after an opening bracket. -/
theorem exists_of_readEnclosed (h : Reads bound part Token Fault)
    (hread : readEnclosed part close finish fuel cs = .ok (v, rest)) :
    ∃ t, cs = t ++ rest ∧ IsContent close Token t := by
  obtain ⟨gap, hgap, hsplit⟩ := exists_gap_skipSpace cs
  unfold readEnclosed at hread
  split at hread
  · next hhead =>
    obtain ⟨more, hmore⟩ := List.head?_eq_some_iff.1 hhead
    rw [hmore] at hread hsplit
    cases hread
    exact ⟨gap ++ [close], by rw [hsplit]; simp, .inl ⟨gap, rfl, hgap⟩⟩
  · obtain ⟨before, last, gap', heq, hbefore, hlast, hgap'⟩ := h.exists_of_readSeries hread
    refine ⟨gap ++ (before ++ (last ++ (gap' ++ [close]))), ?_,
      .inr ⟨gap, before, last, gap', rfl, hgap, hbefore, hlast, hgap'⟩⟩
    rw [hsplit, heq]
    simp

/-- Where reading after an opening bracket fails with a fault, a part is at fault. -/
theorem faultyContent_of_readEnclosed (h : Reads bound part Token Fault)
    (hread : readEnclosed part close finish fuel cs = .error e) (he : e.IsFault) :
    FaultyContent Token Fault cs e := by
  obtain ⟨gap, hgap, hsplit⟩ := exists_gap_skipSpace cs
  unfold readEnclosed at hread
  split at hread
  · cases hread
  · obtain ⟨before, rest, heq, hbefore, hrest⟩ := h.exists_fault_of_readSeries hread he
    exact ⟨gap, before, rest, by rw [← heq, ← hsplit], hgap, hbefore, hrest⟩

/-- After white space, what starts with a part is read by the loop. -/
theorem readEnclosed_of_startsPart (hclose : close = ']' ∨ close = '}') {gap : List Char}
    (hgap : IsSpaces gap) (hcs : StartsPart cs) :
    readEnclosed part close finish fuel (gap ++ cs) = readSeries part close finish fuel [] cs := by
  have hskip : skipSpace (gap ++ cs) = cs := by
    rw [skipSpace_append hgap, skipSpace_of_startsSolid hcs.startsSolid]
  rw [readEnclosed, hskip, if_neg]
  obtain ⟨c, rest, rfl, -, hne⟩ := hcs
  rintro ⟨⟩
  exact hclose.elim hne.1 hne.2.1

/-- What stands between brackets is read. -/
theorem exists_readEnclosed_eq_ok (h : Reads bound part Token Fault)
    (hclose : close = ']' ∨ close = '}') {t : List Char} (ht : IsContent close Token t)
    (hbound : (t ++ rest).length ≤ bound) (hfuel : (t ++ rest).length < fuel) :
    ∃ v, readEnclosed part close finish fuel (t ++ rest) = .ok (v, rest) := by
  rcases ht with ⟨gap, rfl, hgap⟩ | ⟨gap, before, last, gap', rfl, hgap, hbefore, hlast, hgap'⟩
  · have hskip : skipSpace (gap ++ [close] ++ rest) = close :: rest := by
      rw [List.append_assoc, skipSpace_append hgap]
      exact skipSpace_cons (isSpace_close hclose) rest
    refine ⟨finish [], ?_⟩
    rw [readEnclosed, hskip]
    exact if_pos rfl
  · have htext : gap ++ (before ++ (last ++ (gap' ++ [close]))) ++ rest =
        gap ++ (before ++ (last ++ (gap' ++ close :: rest))) := by
      simp
    rw [htext] at hbound hfuel ⊢
    rw [readEnclosed_of_startsPart hclose hgap
      (h.startsPart_append hbefore ((h.token_starts hlast).append _))]
    rw [List.length_append] at hbound hfuel
    refine h.exists_readSeries_eq_ok hclose hbefore hlast hgap' (by omega) ?_
    rw [List.length_append] at hfuel
    omega

/-- Where a part is at fault, reading after the opening bracket fails with the same fault. -/
theorem readEnclosed_eq_error (h : Reads bound part Token Fault)
    (hclose : close = ']' ∨ close = '}') (hcs : FaultyContent Token Fault cs e)
    (hbound : cs.length ≤ bound) (hfuel : cs.length < fuel) :
    readEnclosed part close finish fuel cs = .error e ∧ e.IsFault := by
  obtain ⟨gap, before, rest, rfl, hgap, hbefore, hrest⟩ := hcs
  rw [readEnclosed_of_startsPart hclose hgap
    (h.startsPart_append hbefore (h.fault_starts hrest))]
  rw [List.length_append] at hbound hfuel
  refine h.readSeries_eq_error hclose hbefore hrest (by omega) ?_
  rw [List.length_append] at hfuel
  omega

end Reads

/-! ### Members -/

section
variable {item : List Char → Read Value} {cs rest : List Char} {e : ReadError}

theorem IsQuoted.startsPart {t : List Char} (h : IsQuoted t) : StartsPart t := by
  obtain ⟨cs, rfl, -⟩ := h
  exact ⟨'"', cs, rfl, by decide⟩

/-- The key of a member is read up to its colon. -/
theorem exists_readMember_append (item : List Char → Read Value) {key gap gap' : List Char}
    (hkey : IsQuoted key) (hgap : IsSpaces gap) (hgap' : IsSpaces gap') (hcs : StartsPart cs) :
    ∃ s, readMember item (key ++ (gap ++ ':' :: (gap' ++ cs))) =
      match item cs with
      | .error e => .error e
      | .ok (v, rest) => .ok ((s, v), rest) := by
  obtain ⟨t, rfl, ht⟩ := hkey
  obtain ⟨s, hs⟩ := readText_append ht [] (gap ++ ':' :: (gap' ++ cs))
  have hcolon : skipSpace (gap ++ ':' :: (gap' ++ cs)) = ':' :: (gap' ++ cs) := by
    rw [skipSpace_append hgap, skipSpace_cons (by decide)]
  have hvalue : skipSpace (gap' ++ cs) = cs := by
    rw [skipSpace_append hgap', skipSpace_of_startsSolid hcs.startsSolid]
  refine ⟨s, ?_⟩
  rw [List.cons_append]
  simp only [readMember, hs, hcolon, hvalue]

/-- Where a member is read, and where it fails with a fault, there is a key with a colon. -/
theorem readMember_cases (item : List Char → Read Value) (cs : List Char) :
    (∃ key gap gap' rest s, cs = key ++ (gap ++ ':' :: (gap' ++ rest)) ∧ IsQuoted key ∧
      IsSpaces gap ∧ IsSpaces gap' ∧ readMember item cs =
        match item rest with
        | .error e => .error e
        | .ok (v, rest) => .ok ((s, v), rest)) ∨
    ∃ e, readMember item cs = .error e ∧ ¬ e.IsFault := by
  unfold readMember
  split
  · next cs =>
    cases hkey : readText [] cs with
    | error e => exact .inr ⟨e, rfl, not_isFault_readText hkey⟩
    | ok answer =>
        obtain ⟨s, after⟩ := answer
        obtain ⟨t, rfl, ht⟩ := exists_of_readText hkey
        obtain ⟨gap, hgap, hsplit⟩ := exists_gap_skipSpace after
        dsimp only
        split
        · next more hcolon =>
          obtain ⟨gap', hgap', hsplit'⟩ := exists_gap_skipSpace more
          refine .inl ⟨'"' :: t, gap, gap', skipSpace more, s, ?_, ⟨t, rfl, ht⟩, hgap, hgap', rfl⟩
          rw [List.cons_append, ← hsplit', ← hcolon, ← hsplit]
        · exact .inr ⟨_, rfl, id⟩
  · exact .inr ⟨_, rfl, id⟩

/-- A reader of members reads what it should if the reader of values does. -/
theorem Reads.member {bound : Nat} {Token : List Char → Prop}
    {Fault : List Char → ReadError → Prop} (h : Reads bound item Token Fault) :
    Reads bound (readMember item) (IsMember Token) (FaultyMember Fault) where
  sound {cs rest m} hread := by
    rcases readMember_cases item cs with
      ⟨key, gap, gap', more, s, rfl, hkey, hgap, hgap', heq⟩ | ⟨e, heq, -⟩
    · rw [heq] at hread
      split at hread
      · cases hread
      · next hitem =>
        cases hread
        obtain ⟨t, rfl, ht⟩ := h.sound hitem
        exact ⟨key ++ (gap ++ ':' :: (gap' ++ t)), by simp, key, gap, gap', t, rfl, hkey, hgap,
          hgap', ht⟩
    · rw [heq] at hread
      cases hread
  complete {t rest} ht hrest hbound := by
    obtain ⟨key, gap, gap', t, rfl, hkey, hgap, hgap', ht⟩ := ht
    have htext : key ++ (gap ++ ':' :: (gap' ++ t)) ++ rest =
        key ++ (gap ++ ':' :: (gap' ++ (t ++ rest))) := by
      simp
    rw [htext] at hbound ⊢
    simp only [List.length_append, List.length_cons] at hbound
    obtain ⟨v, hv⟩ := h.complete ht hrest (by rw [List.length_append]; omega)
    obtain ⟨s, hs⟩ := exists_readMember_append item hkey hgap hgap'
      ((h.token_starts ht).append rest)
    exact ⟨(s, v), by rw [hs, hv]⟩
  faulty {cs e} hread he := by
    rcases readMember_cases item cs with
      ⟨key, gap, gap', more, s, rfl, hkey, hgap, hgap', heq⟩ | ⟨e', heq, he'⟩
    · rw [heq] at hread
      split at hread
      · next hitem =>
        cases hread
        exact ⟨key, gap, gap', more, rfl, hkey, hgap, hgap', h.faulty hitem he⟩
      · cases hread
    · rw [heq] at hread
      cases hread
      exact absurd he he'
  fails {cs e} hcs hbound := by
    obtain ⟨key, gap, gap', rest, rfl, hkey, hgap, hgap', hrest⟩ := hcs
    simp only [List.length_append, List.length_cons] at hbound
    obtain ⟨herror, he⟩ := h.fails hrest (by omega)
    obtain ⟨s, hs⟩ := exists_readMember_append item hkey hgap hgap'
      (h.fault_starts hrest)
    exact ⟨by rw [hs, herror], he⟩
  token_starts {t} ht := by
    obtain ⟨key, gap, gap', t, rfl, hkey, -⟩ := ht
    exact hkey.startsPart.append _
  fault_starts {cs e} hcs := by
    obtain ⟨key, gap, gap', rest, rfl, hkey, -⟩ := hcs
    exact hkey.startsPart.append _

end

end CurlWarden.Json
