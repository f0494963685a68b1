import CurlWarden.Proofs.Command.Quoting

/-!
# The splitter reads the quoting grammar

The forward map `words?` is a machine and the grammar of `Proofs.Command.Quoting` is its reverse:
a text has words exactly if it has a reading, and its words are those of the reading. Seen as a
recogniser, the machine fails exactly on the texts that no reading spells.

* From a reading to the words, the machine is run over the pieces: one equation for each kind of
  segment (`wordsFrom_segment`), then for a run of segments, then for whole words.
* From the words to a reading, `Continues` says for each position of the machine what must be left
  of the text if the words are to come out: a partial derivation of the grammar. It is an invariant
  of the machine, read backwards (`continues_of_wordsFrom`).
-/

namespace CurlWarden.Command

/-! ### The machine, one character at a time

The equations that Lean derives for `wordsFrom` carry a side condition for every overlap of its
patterns; these are the same equations, sorted by what the machine does. -/

/-- Is the position outside quotes? -/
def Position.isOutside : Position → Bool
  | .between | .bare _ => true
  | .single _ | .double _ => false

section Machine

variable {position : Position} {word cs : List Char} {c : Char}

theorem wordsFrom_single_close :
    wordsFrom (.single word) ('\'' :: cs) = wordsFrom (.bare word) cs := rfl

theorem wordsFrom_single_other (h : c ≠ '\'') :
    wordsFrom (.single word) (c :: cs) = wordsFrom (.single (c :: word)) cs := by
  rw [wordsFrom.eq_def]
  exact if_neg h

theorem wordsFrom_double_close :
    wordsFrom (.double word) ('"' :: cs) = wordsFrom (.bare word) cs := rfl

theorem wordsFrom_double_escape :
    wordsFrom (.double word) ('\\' :: c :: cs) = wordsFrom (.double (c :: word)) cs := rfl

theorem wordsFrom_double_other (hq : c ≠ '"') (hb : c ≠ '\\') :
    wordsFrom (.double word) (c :: cs) = wordsFrom (.double (c :: word)) cs := by
  rw [wordsFrom.eq_def]
  split <;> simp_all

theorem wordsFrom_open_single (hp : position.isOutside = true) :
    wordsFrom position ('\'' :: cs) = wordsFrom (.single position.word) cs := by
  match position, hp with
  | .between, _ => rfl
  | .bare _, _ => rfl

theorem wordsFrom_open_double (hp : position.isOutside = true) :
    wordsFrom position ('"' :: cs) = wordsFrom (.double position.word) cs := by
  match position, hp with
  | .between, _ => rfl
  | .bare _, _ => rfl

theorem wordsFrom_escape (hp : position.isOutside = true) :
    wordsFrom position ('\\' :: c :: cs) = wordsFrom (.bare (c :: position.word)) cs := by
  match position, hp with
  | .between, _ => rfl
  | .bare _, _ => rfl

theorem wordsFrom_lone (hp : position.isOutside = true) :
    wordsFrom position ['\\'] = wordsFrom (.bare ('\\' :: position.word)) [] := by
  match position, hp with
  | .between, _ => rfl
  | .bare _, _ => rfl

theorem wordsFrom_plain (hp : position.isOutside = true) (h : (Segment.plain c).IsProper) :
    wordsFrom position (c :: cs) = wordsFrom (.bare (c :: position.word)) cs := by
  obtain ⟨hblank, hsingle, hdouble, hback⟩ := h
  rw [wordsFrom.eq_def]
  match position, hp with
  | .between, _ => split <;> simp_all [Position.word]
  | .bare word, _ => split <;> simp_all [Position.word]

/-- No blank is a character that the machine acts on. -/
theorem ne_of_isBlank (h : Text.isBlank c = true) : c ≠ '\'' ∧ c ≠ '"' ∧ c ≠ '\\' :=
  ⟨by rintro rfl; exact absurd h (by decide), by rintro rfl; exact absurd h (by decide),
    by rintro rfl; exact absurd h (by decide)⟩

theorem wordsFrom_between_blank (h : Text.isBlank c = true) :
    wordsFrom .between (c :: cs) = wordsFrom .between cs := by
  obtain ⟨hsingle, hdouble, hback⟩ := ne_of_isBlank h
  rw [wordsFrom.eq_def]
  split <;> simp_all

theorem wordsFrom_bare_blank (h : Text.isBlank c = true) :
    wordsFrom (.bare word) (c :: cs) = (wordsFrom .between cs).map (word.reverse :: ·) := by
  obtain ⟨hsingle, hdouble, hback⟩ := ne_of_isBlank h
  rw [wordsFrom.eq_def]
  split <;> simp_all

end Machine

/-! ### From a reading to its words -/

theorem wordsFrom_single_run {word run cs : List Char} (h : '\'' ∉ run) :
    wordsFrom (.single word) (run ++ '\'' :: cs) = wordsFrom (.bare (run.reverse ++ word)) cs := by
  induction run generalizing word with
  | nil => exact wordsFrom_single_close
  | cons c run ih =>
      rw [List.cons_append, wordsFrom_single_other (by grind), ih (by grind)]
      simp

theorem wordsFrom_double_inner {word cs : List Char} {i : Inner} (h : i.IsProper) :
    wordsFrom (.double word) (i.text ++ cs) = wordsFrom (.double (i.char :: word)) cs := by
  cases i with
  | itself c => exact wordsFrom_double_other h.1 h.2
  | escaped c => exact wordsFrom_double_escape

theorem wordsFrom_double_run {word cs : List Char} {run : List Inner}
    (h : ∀ i ∈ run, i.IsProper) :
    wordsFrom (.double word) (run.flatMap Inner.text ++ '"' :: cs)
      = wordsFrom (.bare ((run.map Inner.char).reverse ++ word)) cs := by
  induction run generalizing word with
  | nil => exact wordsFrom_double_close
  | cons i run ih =>
      rw [List.flatMap_cons, List.append_assoc, wordsFrom_double_inner (h i (.head _)),
        ih fun j hj => h j (.tail _ hj)]
      simp

/-- Outside quotes the machine passes over a segment and adds what it stands for to the word. -/
theorem wordsFrom_segment {position : Position} {s : Segment} {cs : List Char}
    (hp : position.isOutside = true) (hs : s.IsProper) (hl : s = .lone → cs = []) :
    wordsFrom position (s.text ++ cs)
      = wordsFrom (.bare (s.meaning.reverse ++ position.word)) cs := by
  cases s with
  | single run =>
      simp only [Segment.text, List.cons_append, List.append_assoc, List.nil_append]
      rw [wordsFrom_open_single hp, wordsFrom_single_run hs, Segment.meaning]
  | double run =>
      simp only [Segment.text, List.cons_append, List.append_assoc, List.nil_append]
      rw [wordsFrom_open_double hp, wordsFrom_double_run hs, Segment.meaning]
  | escaped c => exact wordsFrom_escape hp
  | plain c => exact wordsFrom_plain hp hs
  | lone =>
      obtain rfl := hl rfl
      exact wordsFrom_lone hp

theorem wordsFrom_segments {word after : List Char} {segments : List Segment}
    (h : Segment.Fit after segments) :
    wordsFrom (.bare word) (segments.flatMap Segment.text ++ after)
      = wordsFrom (.bare ((segments.flatMap Segment.meaning).reverse ++ word)) after := by
  induction segments generalizing word with
  | nil => simp
  | cons s segments ih =>
      obtain ⟨hs, hl, hrest⟩ := h
      rw [List.flatMap_cons, List.append_assoc, wordsFrom_segment rfl hs hl, ih hrest]
      simp [Position.word]

theorem wordsFrom_between_gap {gap cs : List Char} (h : IsGap gap) :
    wordsFrom .between (gap ++ cs) = wordsFrom .between cs := by
  induction gap with
  | nil => rfl
  | cons c gap ih => rw [List.cons_append, wordsFrom_between_blank h.tail.1, ih h.tail.2]

/-- A word ends at the blanks after it, or at the end of the text. -/
theorem wordsFrom_bare_gap {word gap cs : List Char} (h : IsGap gap) (hend : gap = [] → cs = []) :
    wordsFrom (.bare word) (gap ++ cs) = (wordsFrom .between cs).map (word.reverse :: ·) := by
  cases gap with
  | nil =>
      obtain rfl := hend rfl
      rfl
  | cons c gap =>
      rw [List.cons_append, wordsFrom_bare_blank h.tail.1, wordsFrom_between_gap h.tail.2]

theorem wordsFrom_spelled {ws : List Spelled} (h : Spelled.Fit ws) :
    wordsFrom .between (ws.flatMap Spelled.text) = some (ws.map Spelled.word) := by
  induction ws with
  | nil => rfl
  | cons w ws ih =>
      obtain ⟨hne, hsegs, hgap, hsep, hrest⟩ := h
      have hend : w.gap = [] → ws.flatMap Spelled.text = [] := by
        intro hg
        rw [Classical.byContradiction fun hws => hsep hws hg, List.flatMap_nil]
      obtain ⟨s, segments, hw⟩ := List.exists_cons_of_ne_nil hne
      rw [hw] at hsegs
      obtain ⟨hs, hl, hsegs⟩ := hsegs
      rw [List.flatMap_cons, Spelled.text, List.append_assoc, hw, List.flatMap_cons,
        List.append_assoc, wordsFrom_segment rfl hs hl, wordsFrom_segments hsegs,
        wordsFrom_bare_gap hgap hend, ih hrest]
      simp [Spelled.word, hw, Position.word]

/-- The splitter finds the words of a reading. -/
theorem words?_text {r : Reading} (h : r.IsProper) : words? r.text = some r.tokens := by
  rw [words?, Reading.text, wordsFrom_between_gap h.1, wordsFrom_spelled h.2]
  simp [Reading.tokens]

/-! ### From the words to a reading -/

section Continuing

variable {tokens : List (List Char)} {position : Position} {word cs : List Char}

/-- Outside quotes, in a word whose characters so far are `word`, last first: `cs` spells the rest
of that word and then other words, so that all the words are `tokens`. -/
def Completes (tokens : List (List Char)) (word cs : List Char) : Prop :=
  ∃ segments gap ws, Segment.Fit (gap ++ ws.flatMap Spelled.text) segments ∧ IsGap gap ∧
    (ws ≠ [] → gap ≠ []) ∧ Spelled.Fit ws ∧
    cs = segments.flatMap Segment.text ++ (gap ++ ws.flatMap Spelled.text) ∧
    tokens = (word.reverse ++ segments.flatMap Segment.meaning) :: ws.map Spelled.word

/-- `cs` is what a reading of `tokens` leaves at the position. Inside quotes, the run that was begun
is finished first. -/
def Continues (tokens : List (List Char)) : Position → List Char → Prop
  | .between, cs =>
    ∃ gap ws, IsGap gap ∧ Spelled.Fit ws ∧ cs = gap ++ ws.flatMap Spelled.text ∧
      tokens = ws.map Spelled.word
  | .bare word, cs => Completes tokens word cs
  | .single word, cs =>
    ∃ run rest, '\'' ∉ run ∧ cs = run ++ '\'' :: rest ∧ Completes tokens (run.reverse ++ word) rest
  | .double word, cs =>
    ∃ (run : List Inner) (rest : List Char), (∀ i ∈ run, i.IsProper) ∧
      cs = run.flatMap Inner.text ++ '"' :: rest ∧
      Completes tokens ((run.map Inner.char).reverse ++ word) rest

/-- A segment in front of what completes the word. -/
theorem Completes.segment {s : Segment} (hp : position.isOutside = true) (hs : s.IsProper)
    (hl : s = .lone → cs = []) (h : Completes tokens (s.meaning.reverse ++ position.word) cs) :
    Continues tokens position (s.text ++ cs) := by
  obtain ⟨segments, gap, ws, hsegs, hgap, hsep, hws, rfl, rfl⟩ := h
  match position, hp with
  | .between, _ =>
      refine ⟨[], ⟨s :: segments, gap⟩ :: ws, by simp [IsGap], ?_, ?_, ?_⟩
      · exact ⟨by simp, ⟨hs, hl, hsegs⟩, hgap, hsep, hws⟩
      · simp [Spelled.text]
      · simp [Spelled.word, Position.word]
  | .bare word, _ =>
      refine ⟨s :: segments, gap, ws, ⟨hs, hl, hsegs⟩, hgap, hsep, hws, ?_, ?_⟩
      · simp
      · simp [Position.word]

/-- A gap in front of other words completes the word. -/
theorem Completes.blank {c : Char} (hc : Text.isBlank c = true)
    (h : Continues tokens .between cs) : Completes (word.reverse :: tokens) word (c :: cs) := by
  obtain ⟨gap, ws, hgap, hws, rfl, rfl⟩ := h
  have hgap' : IsGap (c :: gap) := by simpa [IsGap, hc] using hgap
  exact ⟨[], c :: gap, ws, trivial, hgap', by simp, hws, by simp, by simp⟩

theorem Continues.between_blank {c : Char} (hc : Text.isBlank c = true)
    (h : Continues tokens .between cs) : Continues tokens .between (c :: cs) := by
  obtain ⟨gap, ws, hgap, hws, rfl, rfl⟩ := h
  have hgap' : IsGap (c :: gap) := by simpa [IsGap, hc] using hgap
  exact ⟨c :: gap, ws, hgap', hws, by simp, rfl⟩

/-- A character that is not acted on: plain, or a backslash at the end of the text. -/
theorem Completes.character {c : Char} (hp : position.isOutside = true)
    (hblank : Text.isBlank c = false) (hsingle : c ≠ '\'') (hdouble : c ≠ '"')
    (hback : ∀ c' rest, c = '\\' → cs = c' :: rest → False)
    (h : Completes tokens (c :: position.word) cs) : Continues tokens position (c :: cs) := by
  by_cases hc : c = '\\'
  · subst hc
    cases cs with
    | nil => exact h.segment (s := .lone) hp trivial fun _ => rfl
    | cons c' rest => exact (hback c' rest rfl rfl).elim
  · exact h.segment (s := .plain c) hp ⟨hblank, hsingle, hdouble, hc⟩ nofun

theorem Continues.single_other {c : Char} (hc : c ≠ '\'')
    (h : Continues tokens (.single (c :: word)) cs) :
    Continues tokens (.single word) (c :: cs) := by
  obtain ⟨run, rest, hrun, rfl, hrest⟩ := h
  exact ⟨c :: run, rest, by grind, rfl, by simpa using hrest⟩

theorem Continues.double_inner {i : Inner} (hi : i.IsProper)
    (h : Continues tokens (.double (i.char :: word)) cs) :
    Continues tokens (.double word) (i.text ++ cs) := by
  obtain ⟨run, rest, hrun, rfl, hrest⟩ := h
  exact ⟨i :: run, rest, by grind, by simp, by simpa using hrest⟩

/-- A quoted run, and its closing quote, after an opening one. -/
theorem Continues.open_single (hp : position.isOutside = true)
    (h : Continues tokens (.single position.word) cs) : Continues tokens position ('\'' :: cs) := by
  obtain ⟨run, rest, hrun, rfl, hrest⟩ := h
  simpa [Segment.text] using hrest.segment (s := .single run) hp hrun (by rintro ⟨⟩)

theorem Continues.open_double (hp : position.isOutside = true)
    (h : Continues tokens (.double position.word) cs) : Continues tokens position ('"' :: cs) := by
  obtain ⟨run, rest, hrun, rfl, hrest⟩ := h
  simpa [Segment.text] using hrest.segment (s := .double run) hp hrun (by rintro ⟨⟩)

/-- A double-quoted run cannot end with the text. -/
theorem not_continues_double_nil : ¬ Continues tokens (.double word) [] := by
  rintro ⟨run, rest, -, hrest, -⟩
  simp at hrest

end Continuing

theorem Position.isOutside_of_ne {position : Position}
    (hs : ∀ word, position = .single word → False)
    (hd : ∀ word, position = .double word → False) : position.isOutside = true := by
  cases position with
  | between => rfl
  | bare word => rfl
  | single word => exact (hs word rfl).elim
  | double word => exact (hd word rfl).elim

/-- What the machine has before it when it finds words is the rest of a reading of these words. -/
theorem continues_of_wordsFrom {position : Position} {cs : List Char} {tokens : List (List Char)}
    (h : wordsFrom position cs = some tokens) : Continues tokens position cs := by
  fun_induction wordsFrom position cs generalizing tokens with
  | case1 => exact ⟨[], [], by simp [IsGap], trivial, rfl, by simpa using h.symm⟩
  | case2 word =>
      exact ⟨[], [], [], trivial, by simp [IsGap], by simp, trivial, rfl, by simpa using h.symm⟩
  | case3 => cases h
  | case4 => cases h
  -- Inside single quotes.
  | case5 word cs ih => exact ⟨[], cs, by simp, rfl, ih h⟩
  | case6 word c cs hc ih => exact .single_other hc (ih h)
  -- Inside double quotes.
  | case7 word c cs ih => exact .double_inner (i := .escaped c) trivial (ih h)
  | case8 word cs _ ih => exact ⟨[], cs, by simp, rfl, ih h⟩
  | case9 word c cs hback hq ih =>
      by_cases hc : c = '\\'
      · cases cs with
        | nil => exact absurd (ih h) not_continues_double_nil
        | cons c' cs => exact (hback c' cs hc rfl).elim
      · exact .double_inner (i := .itself c) ⟨hq, hc⟩ (ih h)
  -- Outside quotes.
  | case10 position cs hs hd ih => exact .open_single (Position.isOutside_of_ne hs hd) (ih h)
  | case11 position cs hs hd ih => exact .open_double (Position.isOutside_of_ne hs hd) (ih h)
  | case12 position c cs hs hd ih =>
      exact (ih h).segment (s := .escaped c) (Position.isOutside_of_ne hs hd) trivial
        (by rintro ⟨⟩)
  | case13 c cs _ _ _ hc ih => exact .between_blank hc (ih h)
  | case14 c cs hs hd hback hc ih =>
      exact Completes.character rfl (by simpa using hc) hs hd hback (ih h)
  | case15 word c cs _ _ _ hc ih =>
      obtain ⟨tokens', htokens, rfl⟩ := Option.map_eq_some_iff.1 h
      exact .blank hc (ih htokens)
  | case16 word c cs hs hd hback hc ih =>
      exact Completes.character rfl (by simpa using hc) hs hd hback (ih h)

/-- Words that are found are the words of a reading. -/
theorem exists_reading_of_words? {text : List Char} {tokens : List String}
    (h : words? text = some tokens) :
    ∃ r : Reading, r.IsProper ∧ r.text = text ∧ r.tokens = tokens := by
  obtain ⟨found, hfound, rfl⟩ := Option.map_eq_some_iff.1 h
  obtain ⟨lead, ws, hlead, hws, rfl, rfl⟩ := continues_of_wordsFrom hfound
  exact ⟨⟨lead, ws⟩, ⟨hlead, hws⟩, rfl, by simp [Reading.tokens]⟩

/-! ### Empty words and unquoted texts -/

/-- A segment that stands for nothing is a pair of quotes. -/
theorem Segment.eq_quotes_of_meaning_eq_nil {s : Segment} (h : s.meaning = []) :
    s = .single [] ∨ s = .double [] := by
  cases s with
  | single run => exact .inl (congrArg Segment.single h)
  | double run => exact .inr (congrArg Segment.double (List.map_eq_nil_iff.1 h))
  | escaped c => cases h
  | plain c => cases h
  | lone => cases h

theorem Spelled.quotes_of_word_eq_nil {w : Spelled} (h : w.word = []) {s : Segment}
    (hs : s ∈ w.segments) : s = .single [] ∨ s = .double [] :=
  Segment.eq_quotes_of_meaning_eq_nil (List.flatMap_eq_nil_iff.1 h s hs)

/-- The longest runs of characters that are no blanks. -/
def darkRuns (text : List Char) : List (List Char) :=
  (text.splitOnP Text.isBlank).filter (· ≠ [])

/-- Does the text hold nothing that the splitter acts on but blanks? -/
def IsUnquoted (text : List Char) : Prop := ∀ c ∈ text, c ≠ '\'' ∧ c ≠ '"' ∧ c ≠ '\\'

/-- Without quotes and backslashes the machine only splits at blanks. -/
theorem wordsFrom_of_isUnquoted {text : List Char} (h : IsUnquoted text) :
    wordsFrom .between text = some (darkRuns text) ∧
      ∀ word ≠ [], wordsFrom (.bare word) text
        = some ((text.splitOnPPrepend Text.isBlank word).filter (· ≠ [])) := by
  -- Both positions at once, since each of them leads to the other.
  induction text with
  | nil =>
      refine ⟨rfl, fun word hword => ?_⟩
      simp [wordsFrom.eq_def, hword]
  | cons c text ih =>
      obtain ⟨ihBetween, ihBare⟩ := ih fun d hd => h d (.tail _ hd)
      cases hc : Text.isBlank c with
      | true =>
          refine ⟨?_, fun word hword => ?_⟩
          · rw [wordsFrom_between_blank hc, ihBetween, darkRuns, darkRuns,
              List.splitOnP_cons_eq_if_modifyHead]
            simp [hc]
          · rw [wordsFrom_bare_blank hc, ihBetween, darkRuns, List.splitOnPPrepend_cons_pos hc]
            simp [hword]
      | false =>
          have hplain : (Segment.plain c).IsProper := ⟨hc, h c (.head _)⟩
          refine ⟨?_, fun word hword => ?_⟩
          · rw [wordsFrom_plain rfl hplain, ihBare _ (by simp), darkRuns,
              List.splitOnP_eq_splitOnPPrepend, List.splitOnPPrepend_cons_neg hc]
            rfl
          · rw [wordsFrom_plain rfl hplain, ihBare _ (by simp), List.splitOnPPrepend_cons_neg hc]
            rfl

/-! ### The grammar of the splitter -/

/-- The splitter accepts exactly the quoting grammar: it finds the words of the reading that a text
has, and fails on a text that has none. A text has one reading at most; an empty word is spelled by
empty quotes and nothing else; and without quotes and backslashes the words of a text are its runs
between blanks. -/
theorem words?_reads_grammar (text : List Char) :
    (∀ tokens, words? text = some tokens ↔
      ∃ r : Reading, r.IsProper ∧ r.text = text ∧ r.tokens = tokens) ∧
    (words? text = none ↔ ¬ ∃ r : Reading, r.IsProper ∧ r.text = text) ∧
    (∀ r r' : Reading, r.IsProper → r'.IsProper → r.text = text → r'.text = text → r = r') ∧
    (∀ r : Reading, r.IsProper → r.text = text → ∀ w ∈ r.words, w.word = [] →
      ∀ s ∈ w.segments, s = .single [] ∨ s = .double []) ∧
    (IsUnquoted text → words? text = some ((darkRuns text).map String.ofList)) := by
  have hread : ∀ tokens, words? text = some tokens ↔
      ∃ r : Reading, r.IsProper ∧ r.text = text ∧ r.tokens = tokens := by
    refine fun tokens => ⟨exists_reading_of_words?, ?_⟩
    rintro ⟨r, hr, rfl, rfl⟩
    exact words?_text hr
  refine ⟨hread, ?_, ?_, ?_, ?_⟩
  · rw [Option.eq_none_iff_forall_ne_some, not_exists]
    constructor
    · rintro h r ⟨hr, htext⟩
      exact h r.tokens ((hread _).2 ⟨r, hr, htext, rfl⟩)
    · rintro h tokens htokens
      obtain ⟨r, hr, htext, -⟩ := (hread _).1 htokens
      exact h r ⟨hr, htext⟩
  · rintro r r' hr hr' rfl htext
    exact Reading.eq_of_text_eq hr hr' htext.symm
  · intro r _ _ w _ hword s hs
    exact Spelled.quotes_of_word_eq_nil hword hs
  · intro h
    rw [words?, (wordsFrom_of_isUnquoted h).1, Option.map_some]

end CurlWarden.Command
