import CurlWarden.Proofs.Text.Utf8

/-!
# Bytes that are no text

What the decoder makes of any bytes, said without its machine. Bytes are read from left to right:
the bytes of a character stand for it, and where no character starts, the longest part that is
still the start of one, or else a single byte, stands for a replacement character (`Reads`).

* `Holds` — what the machine knows of a part of a character: `Holds.of_lead` is its start, and
  `Holds.push` its step.
* `decode_eq_iff` — the machine reads as is described, and in no other way.
* `decode_encode_append_encode` — broken bytes between two texts leave both of them alone. In front
  this is so since a character is read as a whole, and behind since no character starts with a byte
  that could continue another one.
-/

namespace CurlWarden.Text.Utf8

/-! ### Reading without the machine -/

section
variable {c : Char} {b : UInt8} {bytes part part' rest rest' : List UInt8} {p : Pending}

/-- The bytes are the start of a character, or all of one. -/
def Begins (part : List UInt8) : Prop := ∃ c, part <+: String.utf8EncodeChar c

/-- No character starts here, and `part` is what one replacement character stands for: the longest
part that is still the start of a character, or else a single byte. -/
structure IsBroken (part rest : List UInt8) : Prop where
  ne_nil : part ≠ []
  invalid (c : Char) : ¬ String.utf8EncodeChar c <+: part ++ rest
  begins : Begins part ∨ part.length = 1
  longest (longer : List UInt8) :
    longer <+: part ++ rest → Begins longer → longer.length ≤ part.length

/-- The bytes hold the text, with a replacement character for each part that is broken. -/
inductive Reads : List UInt8 → List Char → Prop
  | nil : Reads [] []
  | char {bytes text} (c : Char) :
      Reads bytes text → Reads (String.utf8EncodeChar c ++ bytes) (c :: text)
  | broken {part rest text} :
      IsBroken part rest → Reads rest text → Reads (part ++ rest) (replacement :: text)

theorem IsBroken.length_le (h : IsBroken part rest) (h' : IsBroken part' rest')
    (heq : part ++ rest = part' ++ rest') : part.length ≤ part'.length := by
  rcases h.begins with hbegins | hlength
  · exact h'.longest part (heq ▸ List.prefix_append part rest) hbegins
  · rw [hlength]
    exact List.length_pos_iff.2 h'.ne_nil

/-- There is one way to cut a broken part off. -/
theorem IsBroken.unique (h : IsBroken part rest) (h' : IsBroken part' rest')
    (heq : part ++ rest = part' ++ rest') : part = part' ∧ rest = rest' :=
  List.append_inj heq (Nat.le_antisymm (h.length_le h' heq) (h'.length_le h heq.symm))

/-- What the machine knows of the bytes that it has taken of a character. -/
structure Holds (part : List UInt8) (p : Pending) : Prop where
  ne_nil : part ≠ []
  completes (c : Char) (rest : List UInt8) :
    part ++ rest = String.utf8EncodeChar c ↔ p.Finishes c rest
  incomplete (c : Char) : ¬ String.utf8EncodeChar c <+: part
  range : 0x80 ≤ p.low ∧ p.low ≤ p.high ∧ p.high ≤ 0xBF

theorem Holds.of_lead (h : ¬ b.toNat < 0x80) (hlead : Pending.ofLead? b.toNat = some p) :
    Holds [b] p where
  ne_nil := List.cons_ne_nil _ _
  completes _ _ := lead_iff hlead
  incomplete c hstarts := by
    rcases (List.prefix_concat_iff : _ <+: [] ++ [b] ↔ _).1 hstarts with hone | hnil
    · exact h (utf8EncodeChar_eq_one_iff.1 hone).1
    · exact String.utf8EncodeChar_ne_nil (List.prefix_nil.1 hnil)
  range := range_of_lead hlead

theorem Holds.push (h : Holds part p) (htakes : p.Takes b) (howed : ¬ p.owed ≤ 1) :
    Holds (part ++ [b]) (p.push b.toNat) where
  ne_nil := List.append_ne_nil_of_right_ne_nil _ (List.cons_ne_nil _ _)
  completes c rest := by
    rw [List.append_assoc, List.singleton_append, h.completes, finishes_cons, if_neg howed]
    exact and_iff_right htakes
  incomplete c hstarts := by
    rcases List.prefix_concat_iff.1 hstarts with hall | hpart
    · obtain ⟨-, hrest⟩ := finishes_cons.1 ((h.completes c [b]).1 hall.symm)
      rw [if_neg howed] at hrest
      exact hrest
    · exact h.incomplete c hpart
  range := ⟨Nat.le_refl _, Nat.le_of_ble_eq_true rfl, Nat.le_refl _⟩

/-- Wherever the machine stands in a character, there is a way on. -/
theorem exists_finishes (p : Pending) (hrange : p.low ≤ p.high ∧ p.high ≤ 0xBF) :
    ∃ c rest, p.Finishes c rest := by
  induction howed : p.owed using Nat.strongRecOn generalizing p with
  | ind owed ih =>
      have htakes : p.Takes (UInt8.ofNat p.low) := by
        have hbyte : (UInt8.ofNat p.low).toNat = p.low :=
          UInt8.toNat_ofNat_of_lt'
            (Nat.lt_of_le_of_lt (Nat.le_trans hrange.1 hrange.2) (by decide : 0xBF < UInt8.size))
        exact ⟨Nat.le_of_eq hbyte.symm, Nat.le_trans (Nat.le_of_eq hbyte) hrange.1⟩
      by_cases hlast : p.owed ≤ 1
      · exact ⟨_, _, finishes_last htakes hlast⟩
      · obtain ⟨c, rest, hrest⟩ := ih (p.owed - 1) (by omega)
          (p.push (UInt8.ofNat p.low).toNat) ⟨Nat.le_of_ble_eq_true rfl, Nat.le_refl _⟩ rfl
        exact ⟨c, _ :: rest, finishes_cons.2 ⟨htakes, by rwa [if_neg hlast]⟩⟩

/-- A part of a character that cannot go on is broken off there. -/
theorem Holds.isBroken (h : Holds part p) (hstop : ∀ b ∈ rest.head?, ¬ p.Takes b) :
    IsBroken part rest := by
  have hlongest (longer : List UInt8) (hstarts : longer <+: part ++ rest)
      (hbegins : Begins longer) : longer.length ≤ part.length := by
    obtain ⟨c, hc⟩ := hbegins
    refine Nat.le_of_not_lt fun hlt => ?_
    -- A longer start of a character would go on with the byte that is not taken.
    obtain ⟨more, rfl⟩ := List.prefix_of_prefix_length_le (List.prefix_append part rest) hstarts
      (Nat.le_of_lt hlt)
    obtain ⟨behind, hc⟩ := hc
    cases more with
    | nil => simp at hlt
    | cons b more =>
        obtain ⟨tail, rfl⟩ := (List.prefix_append_right_inj part).1 hstarts
        rw [List.append_assoc, h.completes] at hc
        exact hstop b rfl (finishes_cons.1 hc).1
  refine ⟨h.ne_nil, fun c hc => ?_, .inl ?_, hlongest⟩
  · exact h.incomplete c (List.prefix_of_prefix_length_le hc (List.prefix_append part rest)
      (hlongest _ hc ⟨c, List.prefix_refl _⟩))
  · obtain ⟨c, more, hmore⟩ := exists_finishes p h.range.2
    exact ⟨c, more, (h.completes c more).2 hmore⟩

/-- From within a character, the machine completes it, or replaces what it has of it. -/
theorem Holds.read (h : Holds part p) (bytes : List UInt8) :
    (∃ c, String.utf8EncodeChar c <+: part ++ bytes) ∨
    ∃ more rest, bytes = more ++ rest ∧ IsBroken (part ++ more) rest ∧
      run [] (some p) bytes = replacement :: decode rest := by
  induction bytes generalizing part p with
  | nil => exact .inr ⟨[], [], rfl, (List.append_nil part).symm ▸ h.isBroken nofun, rfl⟩
  | cons b bytes ih =>
      by_cases htakes : p.Takes b
      · by_cases howed : p.owed ≤ 1
        · have hdone := (h.completes _ _).2 (finishes_last htakes howed)
          refine .inl ⟨Char.ofNat (p.push b.toNat).bits, bytes, ?_⟩
          rw [← hdone, List.append_assoc, List.singleton_append]
        · have hrun : run [] (some p) (b :: bytes) = run [] (some (p.push b.toNat)) bytes := by
            rw [run_nil_cons, step_more htakes howed]
            rfl
          rcases ih (h.push htakes howed) with ⟨c, hc⟩ | ⟨more, rest, rfl, hbroken, hread⟩
          · rw [List.append_assoc] at hc
            exact .inl ⟨c, hc⟩
          · rw [List.append_assoc] at hbroken
            exact .inr ⟨b :: more, rest, rfl, hbroken, hrun.trans hread⟩
      · have hbroken : IsBroken part (b :: bytes) :=
          h.isBroken fun b' hb' => Option.some.inj hb' ▸ htakes
        exact .inr ⟨[], b :: bytes, rfl, (List.append_nil part).symm ▸ hbroken,
          run_of_not_takes htakes bytes⟩

/-- Where no character starts, the decoder replaces a broken part and goes on behind it. -/
theorem exists_isBroken (hne : bytes ≠ []) (hinvalid : ∀ c, ¬ String.utf8EncodeChar c <+: bytes) :
    ∃ part rest, bytes = part ++ rest ∧ IsBroken part rest ∧
      decode bytes = replacement :: decode rest := by
  obtain ⟨a, bytes, rfl⟩ := List.exists_cons_of_ne_nil hne
  have hascii : ¬ a.toNat < 0x80 := fun hascii =>
    hinvalid (Char.ofNat a.toNat) (utf8EncodeChar_ofNat hascii ▸ List.prefix_append [a] bytes)
  cases hlead : Pending.ofLead? a.toNat with
  | none =>
      refine ⟨[a], bytes, rfl, ⟨nofun, hinvalid, .inr rfl, fun longer hstarts hbegins => ?_⟩,
        decode_cons_of_not_lead hascii hlead bytes⟩
      obtain ⟨c, behind, hc⟩ := hbegins
      rcases List.prefix_cons_iff.1 hstarts with rfl | ⟨more, rfl, -⟩
      · exact Nat.zero_le _
      · exact absurd hc (not_lead hascii hlead)
  | some p =>
      rcases (Holds.of_lead hascii hlead).read bytes with ⟨c, hc⟩ | ⟨more, rest, rfl, hbroken, hrun⟩
      · exact absurd hc (hinvalid c)
      · exact ⟨a :: more, rest, rfl, hbroken, (decode_cons_of_lead hascii hlead _).trans hrun⟩

theorem decode_of_isBroken (h : IsBroken part rest) :
    decode (part ++ rest) = replacement :: decode rest := by
  obtain ⟨part', rest', heq, hbroken, hdecode⟩ :=
    exists_isBroken (List.append_ne_nil_of_left_ne_nil h.ne_nil rest) h.invalid
  obtain ⟨-, rfl⟩ := h.unique hbroken heq
  exact hdecode

theorem reads_decode (bytes : List UInt8) : Reads bytes (decode bytes) := by
  -- Each step takes at least one byte off.
  induction hlength : bytes.length using Nat.strongRecOn generalizing bytes with
  | ind n ih =>
      by_cases hne : bytes = []
      · subst hne
        exact .nil
      by_cases hchar : ∃ c, String.utf8EncodeChar c <+: bytes
      · obtain ⟨c, rest, rfl⟩ := hchar
        rw [decode_char_append]
        have hpos := List.length_pos_iff.2 (String.utf8EncodeChar_ne_nil (c := c))
        rw [List.length_append] at hlength
        exact .char c (ih rest.length (by omega) rest rfl)
      · obtain ⟨part, rest, rfl, hbroken, hdecode⟩ :=
          exists_isBroken hne fun c hc => hchar ⟨c, hc⟩
        rw [hdecode]
        have hpos := List.length_pos_iff.2 hbroken.ne_nil
        rw [List.length_append] at hlength
        exact .broken hbroken (ih rest.length (by omega) rest rfl)

/-- The decoder reads the text that the bytes hold, and there is only the one. -/
theorem decode_eq_iff {text : List Char} : decode bytes = text ↔ Reads bytes text := by
  constructor
  · rintro rfl
    exact reads_decode bytes
  · intro h
    induction h with
    | nil => rfl
    | char c _ ih => rw [decode_char_append, ih]
    | broken hbroken _ ih => rw [decode_of_isBroken hbroken, ih]

end

/-! ### Broken bytes between two texts -/

theorem encode_cons (c : Char) (text : List Char) :
    encode (c :: text) = String.utf8EncodeChar c ++ encode text := List.flatMap_cons

theorem decode_encode_append (text : List Char) (bytes : List UInt8) :
    decode (encode text ++ bytes) = text ++ decode bytes := by
  induction text with
  | nil => rfl
  | cons c text ih =>
      rw [encode_cons, List.append_assoc, decode_char_append, ih, List.cons_append]

theorem decode_encode (text : List Char) : decode (encode text) = text := by
  have h := decode_encode_append text []
  rwa [List.append_nil, show decode [] = [] from rfl, List.append_nil] at h

/-- Whatever the machine is in the middle of, it waits for bytes that continue a character. -/
def AwaitsTail (pending : Option Pending) : Prop :=
  ∀ p ∈ pending, 0x80 ≤ p.low ∧ p.high ≤ 0xBF

theorem awaitsTail_none : AwaitsTail none := fun p hp => absurd hp (Option.not_mem_none p)

theorem awaitsTail_some {p : Pending} (h : 0x80 ≤ p.low ∧ p.high ≤ 0xBF) : AwaitsTail (some p) :=
  fun _ hp => Option.some.inj hp ▸ h

theorem AwaitsTail.start (b : UInt8) : AwaitsTail (start b.toNat).2 := by
  rw [Utf8.start]
  by_cases hascii : b.toNat < 0x80
  · rw [if_pos hascii]
    exact awaitsTail_none
  · rw [if_neg hascii]
    cases hlead : Pending.ofLead? b.toNat with
    | none => exact awaitsTail_none
    | some p => exact awaitsTail_some ⟨(range_of_lead hlead).1, (range_of_lead hlead).2.2⟩

theorem AwaitsTail.step {pending : Option Pending} (b : UInt8) :
    AwaitsTail (step pending b.toNat).2 := by
  cases pending with
  | none => exact AwaitsTail.start b
  | some p =>
      by_cases htakes : p.Takes b
      · by_cases howed : p.owed ≤ 1
        · rw [step_last htakes howed]
          exact awaitsTail_none
        · rw [step_more htakes howed]
          exact awaitsTail_some ⟨Nat.le_refl _, Nat.le_refl _⟩
      · rw [step_of_not_takes htakes]
        exact AwaitsTail.start b

/-- A text behind any bytes is read as if it stood alone. -/
theorem run_append_encode {pending : Option Pending} (hawaits : AwaitsTail pending)
    (bytes : List UInt8) (text : List Char) :
    run [] pending (bytes ++ encode text) = run [] pending bytes ++ text := by
  induction bytes generalizing pending with
  | cons b bytes ih =>
      rw [List.cons_append, run_nil_cons, run_nil_cons, ih (AwaitsTail.step b), List.append_assoc]
  | nil =>
      rw [List.nil_append]
      cases pending with
      | none => exact decode_encode text
      | some p =>
          cases text with
          | nil => rfl
          | cons c text =>
              obtain ⟨b, rest, hc⟩ :=
                List.exists_cons_of_ne_nil (String.utf8EncodeChar_ne_nil (c := c))
              -- The first byte of the text continues nothing, so what was pending is broken.
              have htakes : ¬ p.Takes b := fun htakes => not_isTail_of_eq_cons hc.symm
                ⟨Nat.le_trans (hawaits p rfl).1 htakes.1, Nat.le_trans htakes.2 (hawaits p rfl).2⟩
              have hread := run_of_not_takes htakes (rest ++ encode text)
              rw [← List.cons_append, ← hc, ← encode_cons, decode_encode] at hread
              exact hread

/-- Broken bytes between two texts leave both of them alone. -/
theorem decode_encode_append_encode (text : List Char) (bytes : List UInt8) (text' : List Char) :
    decode (encode text ++ bytes ++ encode text') = text ++ decode bytes ++ text' := by
  have hback : decode (bytes ++ encode text') = decode bytes ++ text' :=
    run_append_encode awaitsTail_none bytes text'
  rw [List.append_assoc, decode_encode_append, hback, List.append_assoc]

end CurlWarden.Text.Utf8
