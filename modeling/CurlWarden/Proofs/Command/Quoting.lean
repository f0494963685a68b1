import CurlWarden.Command.Word
import Mathlib.Data.List.Flatten

/-!
# The quoting grammar

The splitter of `Command.Word` is a machine; here is the notation that it reads, written down
without the machine. A word is spelled as a non-empty sequence of *segments*: a run in single
quotes, a run in double quotes, an escaped character, a plain character, or a lone backslash that
ends the whole text. A `Reading` of a text spells its words one after the other, each with the
blanks that follow it, after the blanks in front.

A reading is data and says everything about how the text is written, down to the kind of each
quote. The main statement of this module is that the notation is unambiguous: a text has at most
one reading (`Reading.eq_of_text_eq`). That the splitter finds it is `Proofs.Command.Splitting`.
-/

namespace CurlWarden.Command

/-! ### Segments -/

/-- A character between double quotes: itself, or behind a backslash. -/
inductive Inner where
  | itself (c : Char)
  | escaped (c : Char)
  deriving DecidableEq, Repr

namespace Inner

/-- How it is written. -/
def text : Inner → List Char
  | .itself c => [c]
  | .escaped c => ['\\', c]

/-- The character that it stands for. -/
def char : Inner → Char
  | .itself c => c
  | .escaped c => c

/-- Only a double quote and a backslash need an escape; everything may have one. -/
def IsProper : Inner → Prop
  | .itself c => c ≠ '"' ∧ c ≠ '\\'
  | .escaped _ => True

end Inner

/-- A part of the spelling of a word. -/
inductive Segment where
  | single (run : List Char)
  | double (run : List Inner)
  | escaped (c : Char)
  | plain (c : Char)
  | lone
  deriving DecidableEq, Repr

namespace Segment

/-- How the segment is written. -/
def text : Segment → List Char
  | .single run => '\'' :: run ++ ['\'']
  | .double run => '"' :: run.flatMap Inner.text ++ ['"']
  | .escaped c => ['\\', c]
  | .plain c => [c]
  | .lone => ['\\']

/-- The characters that the segment stands for. -/
def meaning : Segment → List Char
  | .single run => run
  | .double run => run.map Inner.char
  | .escaped c => [c]
  | .plain c => [c]
  | .lone => ['\\']

/-- May the segment be written, wherever it stands? -/
def IsProper : Segment → Prop
  | .single run => '\'' ∉ run
  | .double run => ∀ i ∈ run, i.IsProper
  | .escaped _ => True
  | .plain c => Text.isBlank c = false ∧ c ≠ '\'' ∧ c ≠ '"' ∧ c ≠ '\\'
  | .lone => True

/-- May the segments be written before `after`? A lone backslash must end the text, or it would be
read as an escape. -/
def Fit (after : List Char) : List Segment → Prop
  | [] => True
  | s :: segments =>
    s.IsProper ∧ (s = .lone → segments.flatMap text ++ after = []) ∧ Fit after segments

end Segment

/-! ### Readings -/

/-- Blanks, as many as one likes. -/
def IsGap (gap : List Char) : Prop := ∀ c ∈ gap, Text.isBlank c = true

/-- A word as it is spelled, with the blanks after it. -/
structure Spelled where
  segments : List Segment
  gap : List Char
  deriving DecidableEq, Repr

namespace Spelled

/-- How the word and the blanks after it are written. -/
def text (w : Spelled) : List Char := w.segments.flatMap Segment.text ++ w.gap

/-- The word that is spelled. -/
def word (w : Spelled) : List Char := w.segments.flatMap Segment.meaning

/-- May the words be written one after the other? Each has a segment, and some blank separates it
from the next. -/
def Fit : List Spelled → Prop
  | [] => True
  | w :: ws =>
    w.segments ≠ [] ∧ Segment.Fit (w.gap ++ ws.flatMap text) w.segments ∧ IsGap w.gap ∧
      (ws ≠ [] → w.gap ≠ []) ∧ Fit ws

end Spelled

/-- A text taken apart: the blanks in front, and the words. -/
structure Reading where
  lead : List Char
  words : List Spelled
  deriving DecidableEq, Repr

namespace Reading

/-- The text that is read. -/
def text (r : Reading) : List Char := r.lead ++ r.words.flatMap Spelled.text

/-- The words that the text holds, without their spelling. -/
def tokens (r : Reading) : List String := r.words.map (String.ofList ·.word)

/-- Is this a way to write a text? -/
def IsProper (r : Reading) : Prop := IsGap r.lead ∧ Spelled.Fit r.words

end Reading

/-! ### What a spelling starts with -/

/-- The text is empty or starts with a blank. -/
def StartsBlank (cs : List Char) : Prop := ∀ c ∈ cs.head?, Text.isBlank c = true

/-- The text is empty or starts with a character that is no blank. -/
def StartsDark (cs : List Char) : Prop := ∀ c ∈ cs.head?, Text.isBlank c = false

theorem IsGap.tail {c : Char} {gap : List Char} (h : IsGap (c :: gap)) :
    Text.isBlank c = true ∧ IsGap gap := by
  simpa [IsGap] using h

/-- No segment starts with a blank. -/
theorem Segment.exists_text_eq_cons {s : Segment} (hs : s.IsProper) :
    ∃ c cs, s.text = c :: cs ∧ Text.isBlank c = false := by
  cases s with
  | single run => exact ⟨_, _, rfl, by decide⟩
  | double run => exact ⟨_, _, rfl, by decide⟩
  | escaped c => exact ⟨_, _, rfl, by decide⟩
  | plain c => exact ⟨_, _, rfl, hs.1⟩
  | lone => exact ⟨_, _, rfl, by decide⟩

theorem Spelled.startsDark_of_fit {ws : List Spelled} (h : Spelled.Fit ws) :
    StartsDark (ws.flatMap text) := by
  cases ws with
  | nil => simp [StartsDark]
  | cons w ws =>
      obtain ⟨segments, gap⟩ := w
      obtain ⟨hne, hfit, -⟩ := h
      obtain ⟨s, rest, rfl⟩ := List.exists_cons_of_ne_nil hne
      obtain ⟨c, cs, htext, hc⟩ := Segment.exists_text_eq_cons hfit.1
      simp [StartsDark, text, htext, hc]

/-- What follows the segments of a word starts with a blank, if anything follows. -/
theorem Spelled.startsBlank_of_fit {w : Spelled} {ws : List Spelled} (h : Spelled.Fit (w :: ws)) :
    StartsBlank (w.gap ++ ws.flatMap text) := by
  obtain ⟨-, -, hgap, hsep, -⟩ := h
  cases hg : w.gap with
  | cons c gap =>
      rw [hg] at hgap
      simp [StartsBlank, hgap.tail.1]
  | nil =>
      have : ws = [] := Classical.byContradiction fun hne => hsep hne hg
      simp [StartsBlank, this]

/-! ### A text has one reading -/

/-- A single-quoted run ends at the first single quote. -/
theorem Segment.single_run_inj {run run' a b : List Char} (h : '\'' ∉ run) (h' : '\'' ∉ run')
    (heq : run ++ '\'' :: a = run' ++ '\'' :: b) : run = run' ∧ a = b := by
  induction run generalizing run' with
  | nil =>
      cases run' with
      | nil => simpa using heq
      | cons c run' => exact absurd (List.cons.inj heq).1.symm (by grind)
  | cons c run ih =>
      cases run' with
      | nil => exact absurd (List.cons.inj heq).1 (by grind)
      | cons c' run' =>
          obtain ⟨rfl, hrest⟩ := List.cons.inj heq
          obtain ⟨rfl, rfl⟩ := ih (by grind) (by grind) hrest
          exact ⟨rfl, rfl⟩

/-- The first character of a double-quoted run can be told from the text. -/
theorem Inner.text_append_inj {i i' : Inner} {a b : List Char} (h : i.IsProper) (h' : i'.IsProper)
    (heq : i.text ++ a = i'.text ++ b) : i = i' ∧ a = b := by
  cases i <;> cases i' <;> grind [text, IsProper]

/-- No character inside double quotes is written like the closing quote. -/
theorem Inner.text_append_ne {i : Inner} {a b : List Char} (h : i.IsProper) :
    i.text ++ a ≠ '"' :: b := by
  cases i <;> grind [text, IsProper]

/-- A double-quoted run ends at the first double quote that no backslash escapes. -/
theorem Segment.double_run_inj {run run' : List Inner} {a b : List Char}
    (h : ∀ i ∈ run, i.IsProper) (h' : ∀ i ∈ run', i.IsProper)
    (heq : run.flatMap Inner.text ++ '"' :: a = run'.flatMap Inner.text ++ '"' :: b) :
    run = run' ∧ a = b := by
  induction run generalizing run' with
  | nil =>
      cases run' with
      | nil => simpa using heq
      | cons i' run' =>
          simp only [List.flatMap_cons, List.append_assoc] at heq
          exact absurd heq.symm (Inner.text_append_ne (h' i' (.head _)))
  | cons i run ih =>
      cases run' with
      | nil =>
          simp only [List.flatMap_cons, List.append_assoc] at heq
          exact absurd heq (Inner.text_append_ne (h i (.head _)))
      | cons i' run' =>
          simp only [List.flatMap_cons, List.append_assoc] at heq
          obtain ⟨rfl, hrest⟩ := Inner.text_append_inj (h i (.head _)) (h' i' (.head _)) heq
          obtain ⟨rfl, rfl⟩ :=
            ih (fun j hj => h j (.tail _ hj)) (fun j hj => h' j (.tail _ hj)) hrest
          exact ⟨rfl, rfl⟩

/-- The first segment of a text can be told from the text. -/
theorem Segment.text_append_inj {s s' : Segment} {a b : List Char} (hs : s.IsProper)
    (hs' : s'.IsProper) (hl : s = .lone → a = []) (hl' : s' = .lone → b = [])
    (heq : s.text ++ a = s'.text ++ b) : s = s' ∧ a = b := by
  cases s with
  | single run =>
      cases s' with
      | single run' => simpa using single_run_inj hs hs' (by simpa [text] using heq)
      | _ => grind [text, IsProper]
  | double run =>
      cases s' with
      | double run' => simpa using double_run_inj hs hs' (by simpa [text] using heq)
      | _ => grind [text, IsProper]
  | _ => cases s' <;> grind [text, IsProper]

theorem Segment.fit_inj {segments segments' : List Segment} {after after' : List Char}
    (h : Segment.Fit after segments) (h' : Segment.Fit after' segments')
    (hb : StartsBlank after) (hb' : StartsBlank after')
    (heq : segments.flatMap text ++ after = segments'.flatMap text ++ after') :
    segments = segments' ∧ after = after' := by
  induction segments generalizing segments' with
  | nil =>
      cases segments' with
      | nil => simpa using heq
      | cons s' segments' =>
          obtain ⟨c, cs, htext, hc⟩ := exists_text_eq_cons h'.1
          simp [htext] at heq
          simp [StartsBlank, heq, hc] at hb
  | cons s segments ih =>
      cases segments' with
      | nil =>
          obtain ⟨c, cs, htext, hc⟩ := exists_text_eq_cons h.1
          simp [htext] at heq
          simp [StartsBlank, ← heq, hc] at hb'
      | cons s' segments' =>
          obtain ⟨hs, hl, hrest⟩ := h
          obtain ⟨hs', hl', hrest'⟩ := h'
          simp only [List.flatMap_cons, List.append_assoc] at heq
          obtain ⟨rfl, htail⟩ := text_append_inj hs hs' hl hl' heq
          obtain ⟨rfl, rfl⟩ := ih hrest hrest' htail
          exact ⟨rfl, rfl⟩

/-- Blanks in front of a text that starts with none are exactly those that it starts with. -/
theorem IsGap.append_inj {gap gap' cs cs' : List Char} (h : IsGap gap) (h' : IsGap gap')
    (hd : StartsDark cs) (hd' : StartsDark cs') (heq : gap ++ cs = gap' ++ cs') :
    gap = gap' ∧ cs = cs' := by
  induction gap generalizing gap' with
  | nil =>
      cases gap' with
      | nil => exact ⟨rfl, heq⟩
      | cons c gap' =>
          have hc := h'.tail.1
          simp only [List.nil_append, List.cons_append] at heq
          simp [StartsDark, heq, hc] at hd
  | cons c gap ih =>
      cases gap' with
      | nil =>
          have hc := h.tail.1
          simp only [List.nil_append, List.cons_append] at heq
          simp [StartsDark, ← heq, hc] at hd'
      | cons c' gap' =>
          obtain ⟨rfl, hrest⟩ := List.cons.inj heq
          obtain ⟨rfl, rfl⟩ := ih h.tail.2 h'.tail.2 hrest
          exact ⟨rfl, rfl⟩

theorem Spelled.fit_inj {ws ws' : List Spelled} (h : Spelled.Fit ws) (h' : Spelled.Fit ws')
    (heq : ws.flatMap text = ws'.flatMap text) : ws = ws' := by
  induction ws generalizing ws' with
  | nil =>
      cases ws' with
      | nil => rfl
      | cons w' ws' =>
          obtain ⟨s, rest, hsegs⟩ := List.exists_cons_of_ne_nil h'.1
          obtain ⟨c, cs, htext, -⟩ := Segment.exists_text_eq_cons (hsegs ▸ h'.2.1).1
          simp [text, hsegs, htext] at heq
  | cons w ws ih =>
      cases ws' with
      | nil =>
          obtain ⟨s, rest, hsegs⟩ := List.exists_cons_of_ne_nil h.1
          obtain ⟨c, cs, htext, -⟩ := Segment.exists_text_eq_cons (hsegs ▸ h.2.1).1
          simp [text, hsegs, htext] at heq
      | cons w' ws' =>
          have hb := startsBlank_of_fit h
          have hb' := startsBlank_of_fit h'
          obtain ⟨-, hsegs, hgap, -, hrest⟩ := h
          obtain ⟨-, hsegs', hgap', -, hrest'⟩ := h'
          simp only [List.flatMap_cons, text, List.append_assoc] at heq
          obtain ⟨hs, htail⟩ := Segment.fit_inj hsegs hsegs' hb hb' heq
          obtain ⟨hg, hws⟩ := hgap.append_inj hgap' (startsDark_of_fit hrest)
            (startsDark_of_fit hrest') htail
          obtain rfl := ih hrest hrest' hws
          cases w; cases w'
          simp_all

/-- A text has at most one reading. -/
theorem Reading.eq_of_text_eq {r r' : Reading} (h : r.IsProper) (h' : r'.IsProper)
    (heq : r.text = r'.text) : r = r' := by
  obtain ⟨hlead, hwords⟩ := h.1.append_inj h'.1 (Spelled.startsDark_of_fit h.2)
    (Spelled.startsDark_of_fit h'.2) heq
  have hws := Spelled.fit_inj h.2 h'.2 hwords
  cases r; cases r'
  simp_all

/-! ### Words add nothing to the text -/

theorem Inner.char_sublist_text (i : Inner) : [i.char].Sublist i.text := by
  cases i with
  | itself c => exact .refl _
  | escaped c => exact (List.Sublist.refl [c]).cons _

/-- What a segment stands for is what is left of it without its quotes and backslashes. -/
theorem Segment.meaning_sublist_text (s : Segment) : s.meaning.Sublist s.text := by
  cases s with
  | single run => exact (List.sublist_append_left run ['\'']).cons _
  | double run =>
      have hrun : (run.map Inner.char).Sublist (run.flatMap Inner.text) := by
        rw [List.map_eq_flatMap]
        exact .flatMap_right _ fun i _ => i.char_sublist_text
      exact (hrun.trans (List.sublist_append_left _ _)).cons _
  | escaped c => exact (List.Sublist.refl [c]).cons _
  | plain c => exact .refl _
  | lone => exact .refl _

theorem Spelled.word_sublist_text (w : Spelled) : w.word.Sublist w.text :=
  (List.Sublist.flatMap_right _ fun s _ => s.meaning_sublist_text).trans
    (List.sublist_append_left _ _)

/-- The words of a text, one after the other, are the text with some characters left out. -/
theorem Reading.tokens_sublist_text (r : Reading) :
    (r.tokens.flatMap String.toList).Sublist r.text := by
  have hwords : r.tokens.flatMap String.toList = r.words.flatMap Spelled.word := by
    simp [tokens, List.flatMap_map]
  rw [hwords]
  exact (List.Sublist.flatMap_right _ fun w _ => w.word_sublist_text).trans
    (List.sublist_append_right _ _)

end CurlWarden.Command
