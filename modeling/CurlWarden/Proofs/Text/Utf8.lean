import CurlWarden.Text.Utf8

/-!
# The bytes of a character

Which bytes are those of a character, and how the decoder of `Text.Utf8` comes through them.

* `utf8EncodeChar_eq_one_iff` to `utf8EncodeChar_eq_four_iff` — the four forms that the bytes of a
  character take, with the value they stand for. The bounds on the second byte are what makes a
  character have one form only.
* `ofLead?_cases` — the table of first bytes in three cases, one for each number of further bytes.
* `lead_iff` — behind a first byte, the bytes that complete a character are the ones that the
  machine goes through (`Pending.Finishes`).
* `decode_char_append` — the bytes of a character are read as that character.
-/

namespace CurlWarden.Text.Utf8

/-! ### The bytes of a character -/

section
variable {c : Char} {a b d e : UInt8} {rest : List UInt8}

/-- May the byte stand behind the first byte of a character? -/
def IsTail (b : UInt8) : Prop := 0x80 ≤ b.toNat ∧ b.toNat ≤ 0xBF

theorem toNat_valid (c : Char) :
    c.toNat < 0xD800 ∨ 0xDFFF < c.toNat ∧ c.toNat < 0x110000 := c.valid

theorem eq_ofNat_iff {n : Nat} (h : n < 0xD800 ∨ 0xDFFF < n ∧ n < 0x110000) :
    c = Char.ofNat n ↔ c.toNat = n := by
  constructor
  · rintro rfl
    rw [Char.ofNat, dif_pos h]
    rfl
  · rintro rfl
    exact (Char.ofNat_toNat c).symm

theorem utf8EncodeChar_eq (c : Char) : String.utf8EncodeChar c =
    if c.toNat ≤ 0x7F then [UInt8.ofNat c.toNat]
    else if c.toNat ≤ 0x7FF then
      [UInt8.ofNat (c.toNat / 64 % 0x20 + 0xC0), UInt8.ofNat (c.toNat % 0x40 + 0x80)]
    else if c.toNat ≤ 0xFFFF then
      [UInt8.ofNat (c.toNat / 4096 % 0x10 + 0xE0), UInt8.ofNat (c.toNat / 64 % 0x40 + 0x80),
       UInt8.ofNat (c.toNat % 0x40 + 0x80)]
    else
      [UInt8.ofNat (c.toNat / 262144 % 0x08 + 0xF0), UInt8.ofNat (c.toNat / 4096 % 0x40 + 0x80),
       UInt8.ofNat (c.toNat / 64 % 0x40 + 0x80), UInt8.ofNat (c.toNat % 0x40 + 0x80)] := rfl

theorem utf8EncodeChar_cases (c : Char) :
    (∃ a, String.utf8EncodeChar c = [a]) ∨
    (∃ a b, String.utf8EncodeChar c = [a, b]) ∨
    (∃ a b d, String.utf8EncodeChar c = [a, b, d]) ∨
    ∃ a b d e, String.utf8EncodeChar c = [a, b, d, e] := by
  rw [utf8EncodeChar_eq]
  split
  · exact .inl ⟨_, rfl⟩
  split
  · exact .inr (.inl ⟨_, _, rfl⟩)
  split
  · exact .inr (.inr (.inl ⟨_, _, _, rfl⟩))
  · exact .inr (.inr (.inr ⟨_, _, _, _, rfl⟩))

theorem utf8EncodeChar_eq_one_iff :
    String.utf8EncodeChar c = [a] ↔ a.toNat < 0x80 ∧ c.toNat = a.toNat := by
  have ha := a.toNat_lt
  rw [utf8EncodeChar_eq]
  split
  · simp [← UInt8.toNat_inj]
    omega
  split
  · simp
    omega
  split
  · simp
    omega
  · simp
    omega

theorem utf8EncodeChar_eq_two_iff : String.utf8EncodeChar c = [a, b] ↔
    (0xC2 ≤ a.toNat ∧ a.toNat ≤ 0xDF) ∧ IsTail b ∧
      c.toNat = (a.toNat - 0xC0) * 64 + (b.toNat - 0x80) := by
  have ha := a.toNat_lt
  have hb := b.toNat_lt
  rw [utf8EncodeChar_eq, IsTail]
  split
  · simp
    omega
  split
  · simp [← UInt8.toNat_inj]
    omega
  split
  · simp
    omega
  · simp
    omega

/-- The second byte is narrowed where the form would be too long, or a surrogate. -/
theorem utf8EncodeChar_eq_three_iff : String.utf8EncodeChar c = [a, b, d] ↔
    (0xE0 ≤ a.toNat ∧ a.toNat ≤ 0xEF) ∧ (IsTail b ∧ IsTail d) ∧
      (a.toNat = 0xE0 → 0xA0 ≤ b.toNat) ∧ (a.toNat = 0xED → b.toNat ≤ 0x9F) ∧
      c.toNat = ((a.toNat - 0xE0) * 64 + (b.toNat - 0x80)) * 64 + (d.toNat - 0x80) := by
  have ha := a.toNat_lt
  have hb := b.toNat_lt
  have hd := d.toNat_lt
  have hc := toNat_valid c
  rw [utf8EncodeChar_eq, IsTail, IsTail]
  split
  · simp
    omega
  split
  · simp
    omega
  split
  · simp [← UInt8.toNat_inj]
    omega
  · simp
    omega

/-- The second byte is narrowed where the form would be too long, or beyond the last character. -/
theorem utf8EncodeChar_eq_four_iff : String.utf8EncodeChar c = [a, b, d, e] ↔
    (0xF0 ≤ a.toNat ∧ a.toNat ≤ 0xF4) ∧ (IsTail b ∧ IsTail d ∧ IsTail e) ∧
      (a.toNat = 0xF0 → 0x90 ≤ b.toNat) ∧ (a.toNat = 0xF4 → b.toNat ≤ 0x8F) ∧
      c.toNat = (((a.toNat - 0xF0) * 64 + (b.toNat - 0x80)) * 64 + (d.toNat - 0x80)) * 64 +
        (e.toNat - 0x80) := by
  have ha := a.toNat_lt
  have hb := b.toNat_lt
  have hd := d.toNat_lt
  have he := e.toNat_lt
  have hc := toNat_valid c
  rw [utf8EncodeChar_eq, IsTail, IsTail, IsTail]
  split
  · simp
    omega
  split
  · simp
    omega
  split
  · simp
    omega
  · simp [← UInt8.toNat_inj]
    omega

/-- The first byte of a character tells how many there are. -/
theorem utf8EncodeChar_eq_cons (h : a :: rest = String.utf8EncodeChar c) :
    (a.toNat < 0x80 ∧ rest = []) ∨
    ((0xC2 ≤ a.toNat ∧ a.toNat ≤ 0xDF) ∧ ∃ b, rest = [b]) ∨
    ((0xE0 ≤ a.toNat ∧ a.toNat ≤ 0xEF) ∧ ∃ b d, rest = [b, d]) ∨
    ((0xF0 ≤ a.toNat ∧ a.toNat ≤ 0xF4) ∧ ∃ b d e, rest = [b, d, e]) := by
  rcases utf8EncodeChar_cases c with ⟨x, hc⟩ | ⟨x, b, hc⟩ | ⟨x, b, d, hc⟩ | ⟨x, b, d, e, hc⟩ <;>
    obtain ⟨rfl, rfl⟩ := List.cons.inj (h.trans hc)
  · exact .inl ⟨(utf8EncodeChar_eq_one_iff.1 hc).1, rfl⟩
  · exact .inr (.inl ⟨(utf8EncodeChar_eq_two_iff.1 hc).1, b, rfl⟩)
  · exact .inr (.inr (.inl ⟨(utf8EncodeChar_eq_three_iff.1 hc).1, b, d, rfl⟩))
  · exact .inr (.inr (.inr ⟨(utf8EncodeChar_eq_four_iff.1 hc).1, b, d, e, rfl⟩))

/-- No character starts with a byte that continues one. -/
theorem not_isTail_of_eq_cons (h : a :: rest = String.utf8EncodeChar c) : ¬ IsTail a := by
  have hform := utf8EncodeChar_eq_cons h
  rw [IsTail]
  omega

theorem utf8EncodeChar_ofNat (ha : a.toNat < 0x80) :
    String.utf8EncodeChar (Char.ofNat a.toNat) = [a] :=
  utf8EncodeChar_eq_one_iff.2 ⟨ha, (eq_ofNat_iff (.inl (by omega))).1 rfl⟩

/-- A byte below the first of several is a character. -/
theorem eq_cons_of_lt (ha : a.toNat < 0x80) :
    a :: rest = String.utf8EncodeChar c ↔ rest = [] ∧ c = Char.ofNat a.toNat := by
  constructor
  · intro h
    have hform := utf8EncodeChar_eq_cons h
    obtain ⟨-, rfl⟩ | ⟨hfirst, -⟩ | ⟨hfirst, -⟩ | ⟨hfirst, -⟩ := hform
    · exact ⟨rfl, (eq_ofNat_iff (.inl (by omega))).2 (utf8EncodeChar_eq_one_iff.1 h.symm).2⟩
    all_goals omega
  · rintro ⟨rfl, rfl⟩
    exact (utf8EncodeChar_ofNat ha).symm

end

/-! ### The machine -/

section
variable {c : Char} {a b : UInt8} {bytes rest : List UInt8} {p : Pending}

theorem run_cons (read : List Char) (pending : Option Pending) (b : UInt8) (bytes : List UInt8) :
    run read pending (b :: bytes) =
      run ((step pending b.toNat).1.reverse ++ read) (step pending b.toNat).2 bytes := by
  cases pending <;> rfl

theorem run_eq_append (read : List Char) (pending : Option Pending) (bytes : List UInt8) :
    run read pending bytes = read.reverse ++ run [] pending bytes := by
  induction bytes generalizing read pending with
  | nil => cases pending <;> simp [run]
  | cons b bytes ih =>
      rw [run_cons, run_cons, ih, ih (_ ++ [])]
      simp

/-- The machine yields what it yields for a byte, and goes on. -/
theorem run_nil_cons (pending : Option Pending) (b : UInt8) (bytes : List UInt8) :
    run [] pending (b :: bytes) =
      (step pending b.toNat).1 ++ run [] (step pending b.toNat).2 bytes := by
  rw [run_cons, run_eq_append, List.append_nil, List.reverse_reverse]

/-- What is pending after a byte that is taken and does not end the character. -/
def Pending.push (p : Pending) (b : Nat) : Pending :=
  ⟨p.bits * 64 + (b - 0x80), p.owed - 1, 0x80, 0xBF⟩

theorem Pending.bits_push (p : Pending) (b : Nat) :
    (p.push b).bits = p.bits * 64 + (b - 0x80) := rfl

/-- May this byte come next? -/
def Pending.Takes (p : Pending) (b : UInt8) : Prop := p.low ≤ b.toNat ∧ b.toNat ≤ p.high

theorem Pending.takes_iff : (p.low ≤ b.toNat && b.toNat ≤ p.high) = true ↔ p.Takes b := by
  rw [Bool.and_eq_true, decide_eq_true_eq, decide_eq_true_eq, Pending.Takes]

theorem step_last (htakes : p.Takes b) (howed : p.owed ≤ 1) :
    step (some p) b.toNat = ([Char.ofNat (p.push b.toNat).bits], none) := by
  rw [step, if_pos (Pending.takes_iff.2 htakes)]
  exact if_pos howed

theorem step_more (htakes : p.Takes b) (howed : ¬ p.owed ≤ 1) :
    step (some p) b.toNat = ([], some (p.push b.toNat)) := by
  rw [step, if_pos (Pending.takes_iff.2 htakes)]
  exact if_neg howed

/-- A byte that does not continue the character is looked at afresh. -/
theorem step_of_not_takes (htakes : ¬ p.Takes b) : step (some p) b.toNat =
    (replacement :: (start b.toNat).1, (start b.toNat).2) := by
  rw [step, if_neg (mt Pending.takes_iff.1 htakes)]

theorem run_of_not_takes (htakes : ¬ p.Takes b) (bytes : List UInt8) :
    run [] (some p) (b :: bytes) = replacement :: decode (b :: bytes) := by
  rw [decode, run_nil_cons, step_of_not_takes htakes, run_nil_cons]
  rfl

theorem decode_cons_of_lt (h : b.toNat < 0x80) (bytes : List UInt8) :
    decode (b :: bytes) = Char.ofNat b.toNat :: decode bytes := by
  rw [decode, run_nil_cons, step, start, if_pos h]
  rfl

theorem decode_cons_of_lead (h : ¬ b.toNat < 0x80) (hlead : Pending.ofLead? b.toNat = some p)
    (bytes : List UInt8) : decode (b :: bytes) = run [] (some p) bytes := by
  rw [decode, run_nil_cons, step, start, if_neg h, hlead]
  rfl

theorem decode_cons_of_not_lead (h : ¬ b.toNat < 0x80) (hlead : Pending.ofLead? b.toNat = none)
    (bytes : List UInt8) : decode (b :: bytes) = replacement :: decode bytes := by
  rw [decode, run_nil_cons, step, start, if_neg h, hlead]
  rfl

/-! ### Parts of a character -/

/-- From where the machine stands, the bytes lead to the character. -/
def Pending.Finishes (c : Char) : Pending → List UInt8 → Prop
  | _, [] => False
  | p, b :: rest => p.Takes b ∧
    if p.owed ≤ 1 then rest = [] ∧ c = Char.ofNat (p.push b.toNat).bits
    else (p.push b.toNat).Finishes c rest

theorem finishes_cons : p.Finishes c (b :: rest) ↔ p.Takes b ∧
    if p.owed ≤ 1 then rest = [] ∧ c = Char.ofNat (p.push b.toNat).bits
    else (p.push b.toNat).Finishes c rest := Iff.rfl

/-- The last byte makes the character. -/
theorem finishes_last (htakes : p.Takes b) (howed : p.owed ≤ 1) :
    p.Finishes (Char.ofNat (p.push b.toNat).bits) [b] :=
  finishes_cons.2 ⟨htakes, by rw [if_pos howed]; exact ⟨rfl, rfl⟩⟩

theorem run_of_finishes (h : p.Finishes c rest) (bytes : List UInt8) :
    run [] (some p) (rest ++ bytes) = c :: decode bytes := by
  induction rest generalizing p with
  | nil => cases h
  | cons b rest ih =>
      obtain ⟨htakes, hrest⟩ := finishes_cons.1 h
      rw [List.cons_append, run_nil_cons]
      split at hrest
      · next howed =>
        obtain ⟨rfl, hc⟩ := hrest
        rw [step_last htakes howed, ← hc]
        rfl
      · next howed =>
        rw [step_more htakes howed]
        exact ih hrest

section
variable {bits low high : Nat}

theorem finishes_one_iff : (⟨bits, 1, low, high⟩ : Pending).Finishes c rest ↔
    ∃ b, rest = [b] ∧ (low ≤ b.toNat ∧ b.toNat ≤ high) ∧
      c = Char.ofNat (bits * 64 + (b.toNat - 0x80)) := by
  cases rest with
  | nil => exact ⟨nofun, nofun⟩
  | cons b rest =>
      rw [finishes_cons, if_pos (Nat.le_refl 1), Pending.bits_push]
      constructor
      · rintro ⟨htakes, rfl, hc⟩
        exact ⟨b, rfl, htakes, hc⟩
      · rintro ⟨b, ⟨⟩, htakes, hc⟩
        exact ⟨htakes, rfl, hc⟩

theorem finishes_add_two_iff {owed : Nat} :
    (⟨bits, owed + 2, low, high⟩ : Pending).Finishes c rest ↔
    ∃ b more, rest = b :: more ∧ (low ≤ b.toNat ∧ b.toNat ≤ high) ∧
      (⟨bits * 64 + (b.toNat - 0x80), owed + 1, 0x80, 0xBF⟩ : Pending).Finishes c more := by
  cases rest with
  | nil => exact ⟨nofun, nofun⟩
  | cons b rest =>
      rw [finishes_cons, if_neg (by simp)]
      constructor
      · rintro ⟨htakes, hmore⟩
        exact ⟨b, rest, rfl, htakes, hmore⟩
      · rintro ⟨b, rest, ⟨⟩, htakes, hmore⟩
        exact ⟨htakes, hmore⟩

theorem finishes_two_iff : (⟨bits, 2, low, high⟩ : Pending).Finishes c rest ↔
    ∃ b d, rest = [b, d] ∧ (low ≤ b.toNat ∧ b.toNat ≤ high) ∧ IsTail d ∧
      c = Char.ofNat ((bits * 64 + (b.toNat - 0x80)) * 64 + (d.toNat - 0x80)) := by
  rw [finishes_add_two_iff]
  constructor
  · rintro ⟨b, more, rfl, hb, hmore⟩
    obtain ⟨d, rfl, hd, hc⟩ := finishes_one_iff.1 hmore
    exact ⟨b, d, rfl, hb, hd, hc⟩
  · rintro ⟨b, d, rfl, hb, hd, hc⟩
    exact ⟨b, [d], rfl, hb, finishes_one_iff.2 ⟨d, rfl, hd, hc⟩⟩

theorem finishes_three_iff : (⟨bits, 3, low, high⟩ : Pending).Finishes c rest ↔
    ∃ b d e, rest = [b, d, e] ∧ (low ≤ b.toNat ∧ b.toNat ≤ high) ∧ (IsTail d ∧ IsTail e) ∧
      c = Char.ofNat (((bits * 64 + (b.toNat - 0x80)) * 64 + (d.toNat - 0x80)) * 64 +
        (e.toNat - 0x80)) := by
  rw [finishes_add_two_iff]
  constructor
  · rintro ⟨b, more, rfl, hb, hmore⟩
    obtain ⟨d, e, rfl, hd, he, hc⟩ := finishes_two_iff.1 hmore
    exact ⟨b, d, e, rfl, hb, ⟨hd, he⟩, hc⟩
  · rintro ⟨b, d, e, rfl, hb, ⟨hd, he⟩, hc⟩
    exact ⟨b, [d, e], rfl, hb, finishes_two_iff.2 ⟨d, e, rfl, hd, he, hc⟩⟩

/-! The first byte of a character tells how many are owed, and where the next one must lie. -/

theorem lead_two_iff (ha : 0xC2 ≤ a.toNat ∧ a.toNat ≤ 0xDF) :
    a :: rest = String.utf8EncodeChar c ↔
      (⟨a.toNat - 0xC0, 1, 0x80, 0xBF⟩ : Pending).Finishes c rest := by
  rw [finishes_one_iff]
  constructor
  · intro h
    obtain hform | ⟨-, b, rfl⟩ | hform | hform := utf8EncodeChar_eq_cons h
    · omega
    · obtain ⟨-, hb, hvalue⟩ := utf8EncodeChar_eq_two_iff.1 h.symm
      exact ⟨b, rfl, hb, (eq_ofNat_iff (hvalue ▸ toNat_valid c)).2 hvalue⟩
    · omega
    · omega
  · rintro ⟨b, rfl, hb, hc⟩
    rw [eq_ofNat_iff (by omega)] at hc
    exact (utf8EncodeChar_eq_two_iff.2 ⟨ha, hb, hc⟩).symm

theorem lead_three_iff (ha : 0xE0 ≤ a.toNat ∧ a.toNat ≤ 0xEF)
    (hlow : a.toNat = 0xE0 ∧ low = 0xA0 ∨ a.toNat ≠ 0xE0 ∧ low = 0x80)
    (hhigh : a.toNat = 0xED ∧ high = 0x9F ∨ a.toNat ≠ 0xED ∧ high = 0xBF)
    (hbits : bits = a.toNat - 0xE0) :
    a :: rest = String.utf8EncodeChar c ↔
      (⟨bits, 2, low, high⟩ : Pending).Finishes c rest := by
  rw [finishes_two_iff, hbits]
  constructor
  · intro h
    obtain hform | hform | ⟨-, b, d, rfl⟩ | hform := utf8EncodeChar_eq_cons h
    · omega
    · omega
    · obtain ⟨-, ⟨hb, hd⟩, hlong, hsurrogate, hvalue⟩ := utf8EncodeChar_eq_three_iff.1 h.symm
      refine ⟨b, d, rfl, ?_, hd, (eq_ofNat_iff (hvalue ▸ toNat_valid c)).2 hvalue⟩
      rw [IsTail] at hb
      omega
    · omega
  · rintro ⟨b, d, rfl, hb, hd, hc⟩
    have htail : IsTail b := by
      rw [IsTail]
      omega
    rw [eq_ofNat_iff (by rw [IsTail] at hd; omega)] at hc
    exact (utf8EncodeChar_eq_three_iff.2 ⟨ha, ⟨htail, hd⟩, by omega, by omega, hc⟩).symm

theorem lead_four_iff (ha : 0xF0 ≤ a.toNat ∧ a.toNat ≤ 0xF4)
    (hlow : a.toNat = 0xF0 ∧ low = 0x90 ∨ a.toNat ≠ 0xF0 ∧ low = 0x80)
    (hhigh : a.toNat = 0xF4 ∧ high = 0x8F ∨ a.toNat ≠ 0xF4 ∧ high = 0xBF)
    (hbits : bits = a.toNat - 0xF0) :
    a :: rest = String.utf8EncodeChar c ↔
      (⟨bits, 3, low, high⟩ : Pending).Finishes c rest := by
  rw [finishes_three_iff, hbits]
  constructor
  · intro h
    obtain hform | hform | hform | ⟨-, b, d, e, rfl⟩ := utf8EncodeChar_eq_cons h
    · omega
    · omega
    · omega
    · obtain ⟨-, ⟨hb, hd, he⟩, hlong, hbeyond, hvalue⟩ := utf8EncodeChar_eq_four_iff.1 h.symm
      refine ⟨b, d, e, rfl, ?_, ⟨hd, he⟩, (eq_ofNat_iff (hvalue ▸ toNat_valid c)).2 hvalue⟩
      rw [IsTail] at hb
      omega
  · rintro ⟨b, d, e, rfl, hb, ⟨hd, he⟩, hc⟩
    have htail : IsTail b := by
      rw [IsTail]
      omega
    rw [eq_ofNat_iff (by rw [IsTail] at hd he; omega)] at hc
    exact (utf8EncodeChar_eq_four_iff.2 ⟨ha, ⟨htail, hd, he⟩, by omega, by omega, hc⟩).symm

end

/-- The table of first bytes, by how many others they ask for. -/
theorem ofLead?_cases (hlead : Pending.ofLead? a.toNat = some p) :
    ((0xC2 ≤ a.toNat ∧ a.toNat ≤ 0xDF) ∧ p = ⟨a.toNat - 0xC0, 1, 0x80, 0xBF⟩) ∨
    (∃ bits low high, p = ⟨bits, 2, low, high⟩ ∧ (0xE0 ≤ a.toNat ∧ a.toNat ≤ 0xEF) ∧
      (a.toNat = 0xE0 ∧ low = 0xA0 ∨ a.toNat ≠ 0xE0 ∧ low = 0x80) ∧
      (a.toNat = 0xED ∧ high = 0x9F ∨ a.toNat ≠ 0xED ∧ high = 0xBF) ∧ bits = a.toNat - 0xE0) ∨
    ∃ bits low high, p = ⟨bits, 3, low, high⟩ ∧ (0xF0 ≤ a.toNat ∧ a.toNat ≤ 0xF4) ∧
      (a.toNat = 0xF0 ∧ low = 0x90 ∨ a.toNat ≠ 0xF0 ∧ low = 0x80) ∧
      (a.toNat = 0xF4 ∧ high = 0x8F ∨ a.toNat ≠ 0xF4 ∧ high = 0xBF) ∧ bits = a.toNat - 0xF0 := by
  unfold Pending.ofLead? at hlead
  simp only [Bool.and_eq_true, decide_eq_true_eq, beq_iff_eq] at hlead
  split at hlead
  · next h => exact .inl ⟨h, (Option.some.inj hlead).symm⟩
  -- The rows of three bytes.
  split at hlead
  · exact .inr (.inl ⟨_, _, _, (Option.some.inj hlead).symm, by omega⟩)
  split at hlead
  · exact .inr (.inl ⟨_, _, _, (Option.some.inj hlead).symm, by omega⟩)
  split at hlead
  · exact .inr (.inl ⟨_, _, _, (Option.some.inj hlead).symm, by omega⟩)
  -- The rows of four.
  split at hlead
  · exact .inr (.inr ⟨_, _, _, (Option.some.inj hlead).symm, by omega⟩)
  split at hlead
  · exact .inr (.inr ⟨_, _, _, (Option.some.inj hlead).symm, by omega⟩)
  split at hlead
  · exact .inr (.inr ⟨_, _, _, (Option.some.inj hlead).symm, by omega⟩)
  · cases hlead

/-- After its first byte, a character is what the machine makes of the others. -/
theorem lead_iff (hlead : Pending.ofLead? a.toNat = some p) :
    a :: rest = String.utf8EncodeChar c ↔ p.Finishes c rest := by
  obtain ⟨ha, rfl⟩ | ⟨bits, low, high, rfl, ha, hlow, hhigh, hbits⟩ |
    ⟨bits, low, high, rfl, ha, hlow, hhigh, hbits⟩ := ofLead?_cases hlead
  · exact lead_two_iff ha
  · exact lead_three_iff ha hlow hhigh hbits
  · exact lead_four_iff ha hlow hhigh hbits

theorem range_of_lead (hlead : Pending.ofLead? a.toNat = some p) :
    0x80 ≤ p.low ∧ p.low ≤ p.high ∧ p.high ≤ 0xBF := by
  obtain ⟨ha, rfl⟩ | ⟨bits, low, high, rfl, ha, hlow, hhigh, hbits⟩ |
    ⟨bits, low, high, rfl, ha, hlow, hhigh, hbits⟩ := ofLead?_cases hlead
  · dsimp only
    decide
  · dsimp only
    omega
  · dsimp only
    omega

/-- The other bytes are characters of one byte, or start none. -/
theorem not_lead (h : ¬ a.toNat < 0x80) (hlead : Pending.ofLead? a.toNat = none) :
    a :: rest ≠ String.utf8EncodeChar c := by
  have hrange : ¬ (0xC2 ≤ a.toNat ∧ a.toNat ≤ 0xF4) := by
    unfold Pending.ofLead? at hlead
    simp only [Bool.and_eq_true, decide_eq_true_eq, beq_iff_eq] at hlead
    intro hrange
    repeat' split at hlead
    all_goals first
      | exact absurd hlead (Option.some_ne_none _)
      | omega
  intro heq
  have hform := utf8EncodeChar_eq_cons heq
  omega

/-- The bytes of a character are read as that character, whatever comes behind them. -/
theorem decode_char_append (c : Char) (bytes : List UInt8) :
    decode (String.utf8EncodeChar c ++ bytes) = c :: decode bytes := by
  obtain ⟨a, rest, hc⟩ := List.exists_cons_of_ne_nil (String.utf8EncodeChar_ne_nil (c := c))
  rw [hc, List.cons_append]
  by_cases hascii : a.toNat < 0x80
  · obtain ⟨rfl, rfl⟩ := (eq_cons_of_lt hascii).1 hc.symm
    exact decode_cons_of_lt hascii bytes
  · cases hlead : Pending.ofLead? a.toNat with
    | none => exact absurd hc.symm (not_lead hascii hlead)
    | some p =>
        rw [decode_cons_of_lead hascii hlead]
        exact run_of_finishes ((lead_iff hlead).1 hc.symm) bytes

end

end CurlWarden.Text.Utf8
