import CurlWarden.Proofs.Policy.Check
import CurlWarden.Proofs.Text.Search

/-!
# Which block a text asks for

The command of a text is found by two searches, one for an opening fence and one for the ticks that
close it. This module says what they find without searching: a fenced block is a way to cut the text
(`Block`), and the one that counts opens leftmost and closes first (`Block.IsFirst`). The reverse
relation of `embedded` is `AsksFor`.

* `fenced?_eq_some_iff`, `fenced?_eq_none_iff` — the searches find the first block, and fail only if
  there is none. They never have to go back: where the leftmost opening fence is not closed, no
  other one is.
* `isFirst_of_plain` — a block without backticks that stands behind a text without opening fences
  is the first one, whatever follows it. No opening fence can begin in the text in front and end
  behind it, since its first letter is nowhere else in an opening fence.
* `embedded_isExact` — the two together, with what follows for texts that have no block.
-/

namespace CurlWarden.Command

variable {text : List Char}

/-! ### Blocks -/

/-- The word `curl`, in any case, and three backticks. -/
def IsOpener (opener : List Char) : Prop :=
  ∃ word : List Char, word.map Char.toLower = program.toList ∧ opener = word ++ ticks

/-- A fenced block in a text. -/
structure Block (text : List Char) where
  before : List Char
  opener : List Char
  inside : List Char
  after : List Char
  isOpener : IsOpener opener
  text_eq : text = before ++ (opener ++ (inside ++ (ticks ++ after)))

/-- No block opens further left, and none that opens there closes sooner. -/
structure Block.IsFirst (block : Block text) : Prop where
  leftmost : ∀ other : Block text, block.before.length ≤ other.before.length
  shortest : ∀ other : Block text, other.before.length = block.before.length →
    block.inside.length ≤ other.inside.length

/-- The command that a text asks for: the inside of its first block, or the text itself. -/
inductive AsksFor (text : String) : String → Prop where
  | block (block : Block text.toList) (h : block.IsFirst) :
      AsksFor text ("curl " ++ String.ofList block.inside)
  | whole (h : ¬ Nonempty (Block text.toList)) : AsksFor text text

/-! ### Opening fences -/

namespace IsOpener

variable {opener opener' rest rest' : List Char}

/-- The first letter of an opening fence is nowhere else in it. -/
theorem exists_cons (h : IsOpener opener) : ∃ c more, opener = c :: more ∧ c.toLower = 'c' ∧
    ∀ d ∈ more, d.toLower ≠ 'c' := by
  obtain ⟨word, hword, rfl⟩ := h
  obtain ⟨c, more, rfl, hc, hmore⟩ := List.map_eq_cons_iff.1 hword
  refine ⟨c, more ++ ticks, rfl, hc, ?_⟩
  intro d hd heq
  rcases List.mem_append.1 hd with hd | hd
  · have hmem : d.toLower ∈ more.map Char.toLower := List.mem_map_of_mem hd
    rw [hmore, heq] at hmem
    exact absurd hmem (by decide)
  · rw [ticks] at hd
    simp only [List.mem_cons, List.not_mem_nil, or_false, or_self] at hd
    subst hd
    exact absurd heq (by decide)

theorem length_eq (h : IsOpener opener) : opener.length = 7 := by
  obtain ⟨word, hword, rfl⟩ := h
  have hlength := congrArg List.length hword
  rw [List.length_map] at hlength
  rw [List.length_append, hlength]
  rfl

theorem append_inj (h : IsOpener opener) (h' : IsOpener opener')
    (hsplit : opener ++ rest = opener' ++ rest') : opener = opener' ∧ rest = rest' :=
  List.append_inj hsplit (h.length_eq.trans h'.length_eq.symm)

/-- An opening fence that begins sooner than another one ends before it. -/
theorem exists_of_append_eq {front : List Char} (h : IsOpener opener) (h' : IsOpener opener')
    (hfront : front ≠ []) (hsplit : opener ++ rest = front ++ (opener' ++ rest')) :
    ∃ more, front = opener ++ more := by
  obtain ⟨c, more', rfl, hc, -⟩ := h'.exists_cons
  obtain ⟨d, more, rfl, -, hmore⟩ := h.exists_cons
  rcases List.append_eq_append_iff.1 hsplit with ⟨overlap, hcut, -⟩ | ⟨overlap, hcut, hrest⟩
  · exact ⟨overlap, hcut⟩
  · obtain ⟨e, front, rfl⟩ := List.exists_cons_of_ne_nil hfront
    cases overlap with
    | nil => exact ⟨[], by simp [hcut]⟩
    | cons f overlap =>
        -- The other one would begin with a letter of this one, but not with its first.
        obtain rfl : c = f := (List.cons.inj hrest).1
        have hmem : c ∈ more := by
          rw [(List.cons.inj hcut).2]
          simp
        exact absurd hc (hmore c hmem)

end IsOpener

theorem afterOpener?_append {opener : List Char} (h : IsOpener opener) (rest : List Char) :
    afterOpener? (opener ++ rest) = some rest := by
  obtain ⟨word, hword, rfl⟩ := h
  obtain ⟨c, u, r, l, rfl⟩ : ∃ c u r l, word = [c, u, r, l] := by
    have hlength : word.length = 4 := by simpa [program] using congrArg List.length hword
    match word, hlength with
    | [c, u, r, l], _ => exact ⟨c, u, r, l, rfl⟩
  rw [List.append_assoc]
  simp only [List.cons_append, List.nil_append, afterOpener?]
  rw [if_pos hword]
  exact Text.after?_append _ _

theorem exists_opener_of_afterOpener? {here rest : List Char} (h : afterOpener? here = some rest) :
    ∃ opener, IsOpener opener ∧ here = opener ++ rest := by
  unfold afterOpener? at h
  split at h
  · next c u r l cs =>
    split at h
    · next hword =>
      obtain rfl := Text.after?_eq_some_iff.1 h
      exact ⟨[c, u, r, l] ++ ticks, ⟨_, hword, rfl⟩, by simp⟩
    · cases h
  · cases h

/-! ### The first block -/

/-- The search for an opening fence stops at one that is not behind any block. -/
theorem exists_opener_of_firstMatch {rest : List Char}
    (h : Text.firstMatch afterOpener? text = some rest) :
    ∃ before opener, IsOpener opener ∧ text = before ++ (opener ++ rest) ∧
      ∀ block : Block text, before.length ≤ block.before.length := by
  obtain ⟨before, here, hcut, hhere, hearlier⟩ := Text.firstMatch_eq_some_iff.1 h
  obtain ⟨opener, hopener, rfl⟩ := exists_opener_of_afterOpener? hhere
  refine ⟨before, opener, hopener, hcut, fun block => ?_⟩
  apply Nat.le_of_not_lt
  intro hlt
  have hnone := hearlier block.before _ block.text_eq hlt
  rw [afterOpener?_append block.isOpener] at hnone
  cases hnone

theorem exists_isFirst_of_fenced? {inside : List Char} (h : fenced? text = some inside) :
    ∃ block : Block text, block.IsFirst ∧ block.inside = inside := by
  obtain ⟨rest, hrest, hinside⟩ := Option.bind_eq_some_iff.1 h
  obtain ⟨before, opener, hopener, rfl, hleftmost⟩ := exists_opener_of_firstMatch hrest
  obtain ⟨after, rfl, hfirst⟩ := Text.before?_eq_some_iff.1 hinside
  refine ⟨⟨before, opener, inside, after, hopener, by simp⟩, ⟨hleftmost, fun other heq => ?_⟩, rfl⟩
  obtain ⟨-, hbehind⟩ := List.append_inj other.text_eq heq.symm
  obtain ⟨-, hbehind⟩ := hopener.append_inj other.isOpener hbehind
  exact hfirst other.inside other.after (hbehind.trans (List.append_assoc _ _ _).symm)

/-- Where there is a block, one is found: its end is behind the leftmost opening fence. -/
theorem fenced?_ne_none (block : Block text) : fenced? text ≠ none := by
  intro h
  cases hopener : Text.firstMatch afterOpener? text with
  | none =>
      rw [block.text_eq] at hopener
      exact Text.firstMatch_ne_none (afterOpener?_append block.isOpener _) hopener
  | some rest =>
      rw [fenced?, hopener, Option.bind_some, Text.before?_eq_none_iff] at h
      obtain ⟨before, opener, hopener, hcut, hleftmost⟩ := exists_opener_of_firstMatch hopener
      have hstarts : before ++ opener <+: block.before ++ block.opener ++ block.inside := by
        have hfirst : before ++ opener <+: text := ⟨rest, by rw [hcut, List.append_assoc]⟩
        have hblock : block.before ++ block.opener ++ block.inside <+: text :=
          ⟨ticks ++ block.after, by rw [List.append_assoc, List.append_assoc, ← block.text_eq]⟩
        apply List.prefix_of_prefix_length_le hfirst hblock
        have hle := hleftmost block
        simp only [List.length_append, hopener.length_eq, block.isOpener.length_eq]
        omega
      obtain ⟨more, hmore⟩ := hstarts
      have hrest : rest = more ++ ticks ++ block.after := by
        have htext := hcut.symm.trans block.text_eq
        rw [← List.append_assoc, ← List.append_assoc, ← List.append_assoc, ← hmore] at htext
        simpa using htext
      exact h ⟨more, block.after, hrest.symm⟩

theorem fenced?_eq_none_iff : fenced? text = none ↔ ¬ Nonempty (Block text) := by
  constructor
  · rintro h ⟨block⟩
    exact fenced?_ne_none block h
  · intro h
    cases hfenced : fenced? text with
    | none => rfl
    | some inside =>
        obtain ⟨block, -⟩ := exists_isFirst_of_fenced? hfenced
        exact absurd ⟨block⟩ h

namespace Block

variable {block other : Block text}

theorem IsFirst.inside_eq (h : block.IsFirst) (h' : other.IsFirst) :
    block.inside = other.inside := by
  have hbefore := Nat.le_antisymm (h.leftmost other) (h'.leftmost block)
  have hinside := Nat.le_antisymm (h.shortest other hbefore.symm) (h'.shortest block hbefore)
  obtain ⟨-, hbehind⟩ := List.append_inj (block.text_eq.symm.trans other.text_eq) hbefore
  obtain ⟨-, hbehind⟩ := block.isOpener.append_inj other.isOpener hbehind
  exact (List.append_inj hbehind hinside).1

/-- The first block ends at the first ticks. -/
theorem IsFirst.not_infix (h : block.IsFirst) : ¬ ticks <:+: block.inside := by
  obtain ⟨before, opener, inside, after, hopener, rfl⟩ := block
  rintro ⟨sooner, more, rfl⟩
  have hle : (sooner ++ ticks ++ more).length ≤ sooner.length :=
    h.shortest ⟨before, opener, sooner, more ++ (ticks ++ after), hopener, by simp⟩ rfl
  have hticks : ticks.length = 3 := rfl
  rw [List.length_append, List.length_append] at hle
  omega

end Block

theorem fenced?_eq_some_iff {inside : List Char} : fenced? text = some inside ↔
    ∃ block : Block text, block.IsFirst ∧ block.inside = inside := by
  refine ⟨exists_isFirst_of_fenced?, ?_⟩
  rintro ⟨block, hblock, rfl⟩
  cases hfenced : fenced? text with
  | none => exact absurd hfenced (fenced?_ne_none block)
  | some inside =>
      obtain ⟨other, hother, rfl⟩ := exists_isFirst_of_fenced? hfenced
      rw [hblock.inside_eq hother]

theorem infix_of_block (block : Block text) : ticks <:+: text := by
  obtain ⟨before, opener, inside, after, -, rfl⟩ := block
  exact ⟨before ++ (opener ++ inside), after, by simp⟩

/-- A block without backticks, behind a text without opening fences, is the first one. -/
theorem isFirst_of_plain {block : Block text}
    (hbefore : ¬ ∃ opener, IsOpener opener ∧ opener <:+: block.before)
    (hinside : '\x60' ∉ block.inside) : block.IsFirst := by
  have hleftmost : ∀ other : Block text, block.before.length ≤ other.before.length := by
    intro other
    apply Nat.le_of_not_lt
    intro hlt
    -- What stands in front of this block is what stands in front of the other one, and more.
    have hcut := other.text_eq.symm.trans block.text_eq
    obtain ⟨front, hfront, hopener⟩ | ⟨front, hfront, -⟩ := List.append_eq_append_iff.1 hcut
    · have hne : front ≠ [] := by
        rintro rfl
        rw [hfront, List.append_nil] at hlt
        exact Nat.lt_irrefl _ hlt
      obtain ⟨more, rfl⟩ := other.isOpener.exists_of_append_eq block.isOpener hne hopener
      exact hbefore ⟨other.opener, other.isOpener, other.before, more, by
        rw [hfront, List.append_assoc]⟩
    · rw [hfront, List.length_append] at hlt
      omega
  refine ⟨hleftmost, fun other heq => ?_⟩
  apply Nat.le_of_not_lt
  intro hlt
  obtain ⟨-, hbehind⟩ := List.append_inj (other.text_eq.symm.trans block.text_eq) heq
  obtain ⟨-, hbehind⟩ := other.isOpener.append_inj block.isOpener hbehind
  obtain ⟨more, hmore, hticks⟩ | ⟨more, hmore, -⟩ := List.append_eq_append_iff.1 hbehind
  · cases more with
    | nil =>
        rw [hmore, List.append_nil] at hlt
        exact Nat.lt_irrefl _ hlt
    | cons c more =>
        obtain rfl : '\x60' = c := (List.cons.inj hticks).1
        rw [hmore] at hinside
        exact hinside (by simp)
  · rw [hmore, List.length_append] at hlt
    omega

/-! ### What a text asks for -/

theorem embedded_of_isFirst {text : String} {block : Block text.toList} (h : block.IsFirst) :
    embedded text = "curl " ++ String.ofList block.inside := by
  rw [embedded, fenced?_eq_some_iff.2 ⟨block, h, rfl⟩]
  apply String.toList_inj.1
  simp [program]

theorem embedded_of_not_nonempty {text : String} (h : ¬ Nonempty (Block text.toList)) :
    embedded text = text := by
  rw [embedded, fenced?_eq_none_iff.2 h]

/-- Every text asks for one command, the one that is found. -/
theorem embedded_eq_iff {text command : String} :
    embedded text = command ↔ AsksFor text command := by
  constructor
  · rintro rfl
    cases hfenced : fenced? text.toList with
    | none =>
        have hnone := fenced?_eq_none_iff.1 hfenced
        rw [embedded_of_not_nonempty hnone]
        exact .whole hnone
    | some inside =>
        obtain ⟨block, hblock, -⟩ := exists_isFirst_of_fenced? hfenced
        rw [embedded_of_isFirst hblock]
        exact .block block hblock
  · intro h
    cases h with
    | block block hblock => exact embedded_of_isFirst hblock
    | whole hnone => exact embedded_of_not_nonempty hnone

/-- The command that is found holds no block of its own. -/
theorem AsksFor.not_nonempty {text command : String} (h : AsksFor text command) :
    ¬ Nonempty (Block command.toList) := by
  cases h with
  | whole hnone => exact hnone
  | block block hblock =>
      rintro ⟨other⟩
      have hticks := infix_of_block other
      rw [String.toList_append, String.toList_ofList] at hticks
      -- No letter and no space is a backtick, so the ticks would be in the block.
      apply hblock.not_infix
      simpa [ticks, List.infix_cons_iff] using hticks

/-- The command of a text is the inside of its leftmost block, up to the first ticks, or the text
itself where there is no block. Hence a command that was found asks for itself; a block without
backticks asks for what it holds, whatever stands before and after it, as long as no opening fence
stands before it; and a text with backticks but without a block is refused. -/
theorem embedded_isExact (text : String) :
    (∀ command, embedded text = command ↔ AsksFor text command) ∧
    embedded (embedded text) = embedded text ∧
    (∀ before opener inside after : List Char, IsOpener opener →
      (¬ ∃ sooner, IsOpener sooner ∧ sooner <:+: before) → '\x60' ∉ inside →
      text.toList = before ++ opener ++ inside ++ ticks ++ after →
      embedded text = "curl " ++ String.ofList inside) ∧
    ('\x60' ∈ text.toList → ¬ Nonempty (Block text.toList) → ∀ limits : Limits,
      Policy.check limits (embedded text) = .error (.violation ⟨.shellMetacharacter, none⟩)) := by
  refine ⟨fun command => embedded_eq_iff, ?_, ?_, ?_⟩
  · exact embedded_of_not_nonempty (embedded_eq_iff.1 rfl).not_nonempty
  · intro before opener inside after hopener hbefore hinside htext
    have hcut : text.toList = before ++ (opener ++ (inside ++ (ticks ++ after))) := by
      rw [htext]
      simp
    let block : Block text.toList := ⟨before, opener, inside, after, hopener, hcut⟩
    have hfirst : block.IsFirst := isFirst_of_plain hbefore hinside
    exact embedded_of_isFirst hfirst
  · intro htick hnone limits
    have hmeta : text.toList.any Policy.metacharacters.contains = true :=
      List.any_eq_true.2 ⟨_, htick, by decide⟩
    rw [embedded_of_not_nonempty hnone, Policy.check, Policy.guardText, if_pos hmeta]

/-- A block between backticks, a metacharacter and a second block; and one that is left open. -/
theorem embedded_isExact_prose :
    embedded "`Do`: CuRl```-s http://a```; then curl```b```" = "curl -s http://a" ∧
      Policy.check {} (embedded "curl```http://a``") =
        .error (.violation ⟨.shellMetacharacter, none⟩) := by
  have hbefore : ¬ ∃ sooner, IsOpener sooner ∧ sooner <:+: "`Do`: ".toList := by
    rintro ⟨sooner, hsooner, hwithin⟩
    have hle := hwithin.length_le
    rw [hsooner.length_eq] at hle
    exact absurd hle (by decide)
  have hopen : ¬ Nonempty (Block "curl```http://a``".toList) := fenced?_eq_none_iff.1 (by decide)
  obtain ⟨-, -, hplain, -⟩ := embedded_isExact "`Do`: CuRl```-s http://a```; then curl```b```"
  obtain ⟨-, -, -, hrefused⟩ := embedded_isExact "curl```http://a``"
  refine ⟨?_, hrefused (by decide) hopen {}⟩
  exact hplain "`Do`: ".toList "CuRl```".toList "-s http://a".toList "; then curl```b```".toList
    ⟨"CuRl".toList, by decide, by decide⟩ hbefore (by decide) (by decide)

end CurlWarden.Command
