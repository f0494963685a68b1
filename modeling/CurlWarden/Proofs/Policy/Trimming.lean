import CurlWarden.Proofs.Policy.Check

/-!
# Blanks around a command

A command is trimmed before it is split, although the splitter passes over blanks by itself. The
two do not always come to the same: trimming looks at characters only, while the splitter knows
which of them a backslash escapes.

* `words?_trim` — trimming changes no word, unless the text ends in an escaped blank
  (`EndsInEscapedBlank`). All of it rests on one dichotomy, proved along the machine: blanks after a
  text change nothing, or else the text ends in a backslash that would escape the first of them
  (`keepsGap_or_endsInEscape`).
* `words?_trim_of_escaped` — where the text does end so, trimming takes the blank and leaves its
  backslash, which then stands for itself.
* `check_eq_judge_untrimmed` — what this means for the check of a command.
-/

namespace CurlWarden

namespace Command

/-! ### How far the splitter has come -/

/-- From `position` the splitter reads `before`, finds `words` in it and is left at `next`, with no
backslash pending: whatever follows is read from there. -/
def Reaches (position : Position) (before : List Char) (words : List (List Char))
    (next : Position) : Prop :=
  ∀ rest, wordsFrom position (before ++ rest) = (wordsFrom next rest).map (words ++ ·)

section Reaching

variable {position next last : Position} {before cs gap word : List Char}
  {words words' : List (List Char)} {c : Char}

theorem Reaches.of_eq (h : ∀ rest, wordsFrom position (before ++ rest) = wordsFrom next rest) :
    Reaches position before [] next := by
  intro rest
  rw [h rest]
  simp

theorem Reaches.trans (h : Reaches position before words next) (h' : Reaches next cs words' last) :
    Reaches position (before ++ cs) (words ++ words') last := by
  intro rest
  rw [List.append_assoc, h, h', Option.map_map]
  congr 1
  funext found
  simp

theorem reaches_of_isGap (h : IsGap gap) : Reaches .between gap [] .between :=
  .of_eq fun _ => wordsFrom_between_gap h

theorem reaches_bare_blank (h : Text.isBlank c = true) :
    Reaches (.bare word) [c] [word.reverse] .between :=
  fun _ => wordsFrom_bare_blank h

theorem wordsFrom_bare_end (word : List Char) (h : IsGap gap) :
    wordsFrom (.bare word) gap = some [word.reverse] := by
  have hend := @wordsFrom_bare_gap word gap [] h fun _ => rfl
  rwa [List.append_nil] at hend

/-- A blank behind a backslash belongs to a word, and so it stays. -/
theorem Reaches.escaped (h : Reaches position before words next) (hnext : next.isOutside = true)
    (hgap : IsGap gap) :
    wordsFrom position (before ++ '\\' :: c :: gap)
      = some (words ++ [next.word.reverse ++ [c]]) := by
  have hend := wordsFrom_bare_end (c :: next.word) hgap
  rw [h, wordsFrom_escape hnext, hend]
  simp

/-- A backslash at the end of the text stands for itself. -/
theorem Reaches.lone (h : Reaches position before words next) (hnext : next.isOutside = true) :
    wordsFrom position (before ++ ['\\']) = some (words ++ [next.word.reverse ++ ['\\']]) := by
  have hend : wordsFrom (.bare ('\\' :: next.word)) [] = some [('\\' :: next.word).reverse] := rfl
  rw [h, wordsFrom_lone hnext, hend]
  simp

end Reaching

/-! ### Blanks after a text -/

/-- Read from `position`, the text has the same words whatever blanks follow it. -/
def KeepsGap (position : Position) (cs : List Char) : Prop :=
  ∀ gap, IsGap gap → wordsFrom position (cs ++ gap) = wordsFrom position cs

/-- Read from `position`, the text ends in a backslash outside quotes that has nothing to escape. -/
def EndsInEscape (position : Position) (cs : List Char) : Prop :=
  ∃ before words next, cs = before ++ ['\\'] ∧ Position.isOutside next = true ∧
    Reaches position before words next

section Gaps

variable {position next : Position} {before cs gap word : List Char} {words : List (List Char)}

theorem wordsFrom_single_gap (h : IsGap gap) : wordsFrom (.single word) gap = none := by
  induction gap generalizing word with
  | nil => rfl
  | cons c gap ih =>
      obtain ⟨hsingle, -, -⟩ := ne_of_isBlank h.tail.1
      rw [wordsFrom_single_other hsingle]
      exact ih h.tail.2

theorem wordsFrom_double_gap (h : IsGap gap) : wordsFrom (.double word) gap = none := by
  induction gap generalizing word with
  | nil => rfl
  | cons c gap ih =>
      obtain ⟨-, hdouble, hback⟩ := ne_of_isBlank h.tail.1
      rw [wordsFrom_double_other hdouble hback]
      exact ih h.tail.2

/-- A quote that is open stays open, also where the last backslash gets something to escape. -/
theorem keepsGap_double_lone : KeepsGap (.double word) ['\\'] := by
  intro gap hgap
  cases gap with
  | nil => rfl
  | cons c gap =>
      rw [List.singleton_append, wordsFrom_double_escape]
      exact wordsFrom_double_gap hgap.tail.2

theorem KeepsGap.step (h : Reaches position before words next) (hcs : KeepsGap next cs) :
    KeepsGap position (before ++ cs) := by
  intro gap hgap
  rw [List.append_assoc, h, h, hcs gap hgap]

theorem EndsInEscape.step (h : Reaches position before words next) (hcs : EndsInEscape next cs) :
    EndsInEscape position (before ++ cs) := by
  obtain ⟨before', words', last, rfl, hlast, hreaches⟩ := hcs
  exact ⟨before ++ before', words ++ words', last, (List.append_assoc ..).symm, hlast,
    h.trans hreaches⟩

theorem step_keepsGap_or_endsInEscape (before : List Char) (h : Reaches position before words next)
    (hcs : KeepsGap next cs ∨ EndsInEscape next cs) :
    KeepsGap position (before ++ cs) ∨ EndsInEscape position (before ++ cs) :=
  hcs.imp (.step h) (.step h)

/-- Outside quotes: a character that is not acted on, or a backslash at the end of the text. -/
theorem keepsGap_or_endsInEscape_character {c : Char} (hp : position.isOutside = true)
    (hblank : Text.isBlank c = false) (hsingle : c ≠ '\'') (hdouble : c ≠ '"')
    (hback : ∀ c' rest, c = '\\' → cs = c' :: rest → False)
    (h : KeepsGap (.bare (c :: position.word)) cs ∨
      EndsInEscape (.bare (c :: position.word)) cs) :
    KeepsGap position (c :: cs) ∨ EndsInEscape position (c :: cs) := by
  by_cases hc : c = '\\'
  · subst hc
    cases cs with
    | nil => exact .inr ⟨[], [], position, rfl, hp, .of_eq fun _ => rfl⟩
    | cons c' rest => exact (hback c' rest rfl rfl).elim
  · exact step_keepsGap_or_endsInEscape [c]
      (.of_eq fun _ => wordsFrom_plain hp ⟨hblank, hsingle, hdouble, hc⟩) h

/-- Blanks after a text change nothing, unless the text ends in a backslash that escapes the first
of them. -/
theorem keepsGap_or_endsInEscape (position : Position) (cs : List Char) :
    KeepsGap position cs ∨ EndsInEscape position cs := by
  fun_induction wordsFrom position cs with
  -- The end of the text: between words, in a word, and inside quotes.
  | case1 => exact .inl fun gap hgap => by simpa using @wordsFrom_between_gap gap [] hgap
  | case2 word => exact .inl fun gap hgap => wordsFrom_bare_end word hgap
  | case3 => exact .inl fun gap hgap => wordsFrom_single_gap hgap
  | case4 => exact .inl fun gap hgap => wordsFrom_double_gap hgap
  -- Inside quotes.
  | case5 word cs ih =>
      exact step_keepsGap_or_endsInEscape ['\'']
        (.of_eq fun _ => wordsFrom_single_close) ih
  | case6 word c cs hc ih =>
      exact step_keepsGap_or_endsInEscape [c]
        (.of_eq fun _ => wordsFrom_single_other hc) ih
  | case7 word c cs ih =>
      exact step_keepsGap_or_endsInEscape ['\\', c]
        (.of_eq fun _ => wordsFrom_double_escape) ih
  | case8 word cs _ ih =>
      exact step_keepsGap_or_endsInEscape ['"']
        (.of_eq fun _ => wordsFrom_double_close) ih
  | case9 word c cs hback hq ih =>
      by_cases hc : c = '\\'
      · subst hc
        cases cs with
        | nil => exact .inl keepsGap_double_lone
        | cons c' cs => exact (hback c' cs rfl rfl).elim
      · exact step_keepsGap_or_endsInEscape [c]
          (.of_eq fun _ => wordsFrom_double_other hq hc) ih
  -- Outside quotes.
  | case10 position cs hs hd ih =>
      exact step_keepsGap_or_endsInEscape ['\'']
        (.of_eq fun _ => wordsFrom_open_single (Position.isOutside_of_ne hs hd)) ih
  | case11 position cs hs hd ih =>
      exact step_keepsGap_or_endsInEscape ['"']
        (.of_eq fun _ => wordsFrom_open_double (Position.isOutside_of_ne hs hd)) ih
  | case12 position c cs hs hd ih =>
      exact step_keepsGap_or_endsInEscape ['\\', c]
        (.of_eq fun _ => wordsFrom_escape (Position.isOutside_of_ne hs hd)) ih
  | case13 c cs _ _ _ hc ih =>
      exact step_keepsGap_or_endsInEscape [c]
        (.of_eq fun _ => wordsFrom_between_blank hc) ih
  | case14 c cs hs hd hback hc ih =>
      exact keepsGap_or_endsInEscape_character rfl (by simpa using hc) hs hd hback ih
  | case15 word c cs _ _ _ hc ih =>
      exact step_keepsGap_or_endsInEscape [c] (reaches_bare_blank hc) ih
  | case16 word c cs hs hd hback hc ih =>
      exact keepsGap_or_endsInEscape_character rfl (by simpa using hc) hs hd hback ih

end Gaps

/-! ### Trimmed texts -/

/-- The text ends in blanks, and a backslash outside quotes escapes the first of them. -/
def EndsInEscapedBlank (text : List Char) : Prop :=
  ∃ before words next c gap, text = before ++ '\\' :: c :: gap ∧ IsGap (c :: gap) ∧
    Position.isOutside next = true ∧ Reaches .between before words next

section Trimming

variable {text : List Char}

theorem isGap_takeWhile (cs : List Char) : IsGap (cs.takeWhile Text.isBlank) := by
  intro c hc
  exact List.all_eq_true.1 List.all_takeWhile c hc

/-- A backslash is no blank, so trimming stops at it. -/
theorem trim_append_backslash {before gap : List Char} (h : IsGap gap) :
    Text.trim (before ++ '\\' :: gap) = Text.trimStart before ++ ['\\'] := by
  rw [Text.trim_append_cons (by decide), Text.trimEnd_of_isBlank h]

theorem wordsFrom_trimStart_append (before cs : List Char) :
    wordsFrom .between (Text.trimStart before ++ cs) = wordsFrom .between (before ++ cs) := by
  have hsplit : before = before.takeWhile Text.isBlank ++ Text.trimStart before :=
    List.takeWhile_append_dropWhile.symm
  calc wordsFrom .between (Text.trimStart before ++ cs)
    _ = wordsFrom .between (before.takeWhile Text.isBlank ++ (Text.trimStart before ++ cs)) :=
      (wordsFrom_between_gap (isGap_takeWhile _)).symm
    _ = wordsFrom .between (before ++ cs) := by rw [← List.append_assoc, ← hsplit]

/-- Trimming leaves the words of a text as they are, unless it ends in an escaped blank. -/
theorem words?_trim (h : ¬ EndsInEscapedBlank text) :
    words? (Text.trim text) = words? text := by
  obtain ⟨lead, gap, htext, hlead, hgap⟩ := Text.exists_eq_append_trim text
  suffices wordsFrom .between (Text.trim text) = wordsFrom .between text by
    rw [words?, words?, this]
  rcases keepsGap_or_endsInEscape .between (Text.trim text) with
    hkeeps | ⟨before, words, next, hbefore, hnext, hreaches⟩
  · calc wordsFrom .between (Text.trim text)
      _ = wordsFrom .between (Text.trim text ++ gap) := (hkeeps gap hgap).symm
      _ = wordsFrom .between (lead ++ (Text.trim text ++ gap)) := (wordsFrom_between_gap hlead).symm
      _ = wordsFrom .between text := by rw [← htext]
  · cases gap with
    | nil =>
        rw [List.append_nil] at htext
        calc wordsFrom .between (Text.trim text)
          _ = wordsFrom .between (lead ++ Text.trim text) := (wordsFrom_between_gap hlead).symm
          _ = wordsFrom .between text := by rw [← htext]
    | cons c gap =>
        refine absurd ⟨lead ++ before, _, next, c, gap, ?_, hgap, hnext,
          (reaches_of_isGap hlead).trans hreaches⟩ h
        rw [htext, hbefore]
        simp

/-- Trimming takes an escaped blank away and leaves its backslash. -/
theorem words?_trim_of_escaped (h : EndsInEscapedBlank text) :
    ∃ words last c, Text.isBlank c = true ∧
      words? (Text.trim text) = some (words ++ [String.ofList (last ++ ['\\'])]) ∧
      words? text = some (words ++ [String.ofList (last ++ [c])]) := by
  obtain ⟨before, words, next, c, gap, rfl, hgap, hnext, hreaches⟩ := h
  refine ⟨words.map String.ofList, next.word.reverse, c, hgap.tail.1, ?_, ?_⟩
  · rw [trim_append_backslash hgap, words?, wordsFrom_trimStart_append, hreaches.lone hnext]
    simp
  · rw [words?, hreaches.escaped hnext hgap.tail.2]
    simp

end Trimming

end Command

namespace Policy

open Command (EndsInEscapedBlank words?)

/-! ### The check without trimming -/

/-- What the policy makes of the words of a text, or of a quote left open in it. -/
def judge (limits : Limits) : Option (List String) → Except Refusal Argv
  | none => .error .openQuote
  | some words => (checkWords limits words).mapError .violation

section
variable {limits : Limits} {text : String}

theorem check_eq_judge (h : guardText limits text = .ok ()) :
    check limits text = judge limits (words? (Text.trim text.toList)) := by
  rw [check, h]
  cases words? (Text.trim text.toList) <;> rfl

/-- An argument vector that comes of words holds them, so different words do not come to the same
one. -/
theorem toList_of_judge {words : List String} {argv : Argv}
    (h : judge limits (some words) = .ok argv) : argv.toList = words := by
  cases hcheck : checkWords limits words with
  | error v =>
      rw [judge, hcheck] at h
      cases h
  | ok found =>
      rw [judge, hcheck] at h
      cases h
      exact (checkWords_eq_ok_iff.1 hcheck).1

end

/-- Trimming a command changes nothing about its judgement, unless the command ends in an escaped
blank. Then the last word loses that blank and ends in a backslash instead, and what is accepted
with the backslash is not accepted with the blank as the same argument vector. -/
theorem check_eq_judge_untrimmed (limits : Limits) (text : String)
    (h : guardText limits text = .ok ()) :
    (¬ EndsInEscapedBlank text.toList →
      check limits text = judge limits (words? text.toList)) ∧
    (EndsInEscapedBlank text.toList →
      ∃ words last c, Text.isBlank c = true ∧
        check limits text = judge limits (some (words ++ [String.ofList (last ++ ['\\'])])) ∧
        judge limits (words? text.toList)
          = judge limits (some (words ++ [String.ofList (last ++ [c])])) ∧
        ∀ argv, check limits text = .ok argv → judge limits (words? text.toList) ≠ .ok argv) := by
  rw [check_eq_judge h]
  refine ⟨fun hplain => by rw [Command.words?_trim hplain], fun hescaped => ?_⟩
  obtain ⟨words, last, c, hc, htrim, hwhole⟩ := Command.words?_trim_of_escaped hescaped
  refine ⟨words, last, c, hc, by rw [htrim], by rw [hwhole], ?_⟩
  intro argv hargv hargv'
  rw [htrim] at hargv
  rw [hwhole] at hargv'
  have hwords := (toList_of_judge hargv).symm.trans (toList_of_judge hargv')
  have hlast := String.ofList_injective (List.singleton_inj.1 (List.append_cancel_left hwords))
  obtain rfl : '\\' = c := List.singleton_inj.1 (List.append_cancel_left hlast)
  exact absurd hc (by decide)

/-- Blanks around a command are passed over, and an escaped one at its end is lost. -/
theorem check_eq_judge_untrimmed_padded :
    guardText {} "\tcurl http://a " = .ok () ∧
      check {} "\tcurl http://a " = judge {} (words? "\tcurl http://a ".toList) ∧
      guardText {} "curl http://a\\ " = .ok () ∧
      check {} "curl http://a\\ " = .ok ⟨"curl", ["http://a\\"]⟩ ∧
      judge {} (words? "curl http://a\\ ".toList) ≠ .ok ⟨"curl", ["http://a\\"]⟩ := by
  have hpadded : guardText {} "\tcurl http://a " = .ok () := by decide +kernel
  have hescaped : guardText {} "curl http://a\\ " = .ok () := by decide +kernel
  have hcheck : check {} "curl http://a\\ " = .ok ⟨"curl", ["http://a\\"]⟩ := by decide +kernel
  have hplain : ¬ EndsInEscapedBlank "\tcurl http://a ".toList := by
    rintro ⟨before, words, next, c, gap, htext, -⟩
    have hmem : '\\' ∈ "\tcurl http://a ".toList := by
      rw [htext]
      exact List.mem_append_right _ (.head _)
    exact absurd hmem (by decide +kernel)
  have hends : EndsInEscapedBlank "curl http://a\\ ".toList := by
    refine ⟨"curl http://a".toList, ["curl".toList], .bare "http://a".toList.reverse, ' ', [], ?_,
      ?_, rfl, ?_⟩
    · decide +kernel
    · exact List.forall_mem_singleton.2 (by decide)
    · exact fun rest => rfl
  obtain ⟨words, last, c, -, -, -, hdiffer⟩ :=
    (check_eq_judge_untrimmed {} "curl http://a\\ " hescaped).2 hends
  exact ⟨hpadded, (check_eq_judge_untrimmed {} "\tcurl http://a " hpadded).1 hplain, hescaped,
    hcheck, hdiffer _ hcheck⟩

/-- An escaped blank at the end of a command is no part of the argument vector. -/
theorem not_eq_judge_escaped_blank :
    ¬ ∀ (limits : Limits) (text : String), guardText limits text = .ok () →
      check limits text = judge limits (words? text.toList) := by
  intro h
  have hcheck : check {} "curl http://a\\ " = .ok ⟨"curl", ["http://a\\"]⟩ := by decide +kernel
  have hwhole : judge {} (words? "curl http://a\\ ".toList) = .ok ⟨"curl", ["http://a "]⟩ := by
    decide +kernel
  have heq := h {} "curl http://a\\ " (by decide +kernel)
  rw [hcheck, hwhole] at heq
  exact absurd heq (by decide)

end Policy

end CurlWarden
