import CurlWarden.Proofs.Policy.Check

/-!
# Writing a command down again

`commandLine` turns a list of words back into a command text: every word in single quotes, a single
quote inside a word written by closing the quotes, escaping it and opening them again, and a space
between words. Reading is deterministic and this is one way back, so the two must be inverse in one
order only:

    words? (commandLine words).toList = some words.

On the way the text is looked at by three others, and none of them may find anything to act on: the
search for a fenced block (`embedded_commandLine`), trimming (`trim_commandLine`) and the guard.
Each rests on which characters a command line holds: those of its words, quotes, backslashes and
spaces (`mem_commandLine`).
-/

namespace CurlWarden.Command

/-! ### Command lines -/

/-- A character as it stands in a word in single quotes. -/
def enclosedChar (c : Char) : List Char := if c = '\'' then ['\'', '\\', '\'', '\''] else [c]

/-- A word in single quotes. -/
def enclosed (word : List Char) : List Char := '\'' :: word.flatMap enclosedChar ++ ['\'']

/-- A command text for a list of words. -/
def commandLine (words : List String) : String :=
  " ".intercalate (words.map fun word => String.ofList (enclosed word.toList))

example : commandLine ["curl", "it's", ""] = "'curl' 'it'\\''s' ''" := by decide +kernel

theorem toList_commandLine (words : List String) :
    (commandLine words).toList = [' '].intercalate (words.map (enclosed ·.toList)) := by
  have htexts : (words.map fun word => String.ofList (enclosed word.toList)).map String.toList =
      words.map (enclosed ·.toList) := by
    rw [List.map_map]
    exact List.map_congr_left fun word _ => String.toList_ofList
  rw [commandLine, String.toList_intercalate, htexts]
  rfl

/-- A word, and then a space and the other words. -/
theorem toList_commandLine_cons (word next : String) (words : List String) :
    (commandLine (word :: next :: words)).toList =
      enclosed word.toList ++ ' ' :: (commandLine (next :: words)).toList := by
  rw [toList_commandLine, toList_commandLine]
  simp only [List.map_cons, List.intercalate_cons_cons, List.append_assoc, List.singleton_append]

theorem toList_commandLine_singleton (word : String) :
    (commandLine [word]).toList = enclosed word.toList := by
  rw [toList_commandLine, List.map_cons, List.map_nil, List.intercalate_singleton]

/-! ### The splitter on a command line -/

/-- The machine passes over what stands in single quotes, leaving and entering them where it
must. -/
theorem wordsFrom_enclosedChars (word cs rest : List Char) :
    wordsFrom (.single word) (cs.flatMap enclosedChar ++ '\'' :: rest) =
      wordsFrom (.bare (cs.reverse ++ word)) rest := by
  induction cs generalizing word with
  | nil => exact wordsFrom_single_close
  | cons c cs ih =>
      by_cases hc : c = '\''
      · subst hc
        show wordsFrom (.single word)
          ('\'' :: '\\' :: '\'' :: '\'' :: (cs.flatMap enclosedChar ++ '\'' :: rest)) = _
        rw [wordsFrom_single_close, wordsFrom_escape rfl, wordsFrom_open_single rfl]
        show wordsFrom (.single ('\'' :: word)) _ = _
        rw [ih, List.reverse_cons, List.append_assoc, List.singleton_append]
      · rw [List.flatMap_cons, enclosedChar, if_neg hc, List.append_assoc, List.singleton_append,
          wordsFrom_single_other hc, ih, List.reverse_cons, List.append_assoc,
          List.singleton_append]

theorem wordsFrom_enclosed (word rest : List Char) :
    wordsFrom .between (enclosed word ++ rest) = wordsFrom (.bare word.reverse) rest := by
  rw [enclosed, List.cons_append, List.cons_append, List.append_assoc, List.singleton_append,
    wordsFrom_open_single rfl]
  show wordsFrom (.single []) _ = _
  rw [wordsFrom_enclosedChars, List.append_nil]

/-- A command line has the words that it was made of. -/
theorem words?_commandLine (words : List String) :
    words? (commandLine words).toList = some words := by
  have hwords : wordsFrom .between (commandLine words).toList = some (words.map String.toList) := by
    induction words with
    | nil => rfl
    | cons word words ih =>
        cases words with
        | nil =>
            rw [toList_commandLine_singleton, ← List.append_nil (enclosed word.toList),
              wordsFrom_enclosed]
            show some [word.toList.reverse.reverse] = _
            rw [List.reverse_reverse, List.map_cons, List.map_nil]
        | cons next words =>
            rw [toList_commandLine_cons, wordsFrom_enclosed, wordsFrom_bare_blank (by decide), ih,
              List.reverse_reverse, Option.map_some, ← List.map_cons]
  rw [words?, hwords, Option.map_some, List.map_map]
  congr 1
  simp

/-! ### What a command line is made of -/

/-- A word in quotes holds its own characters, quotes and backslashes. -/
theorem mem_enclosed {word : List Char} {c : Char} (h : c ∈ enclosed word) :
    c ∈ ['\'', '\\', ' '] ∨ c ∈ word := by
  have hchar : ∀ d ∈ word, c ∈ enclosedChar d → c ∈ ['\'', '\\', ' '] ∨ c ∈ word := by
    intro d hd hc
    rw [enclosedChar] at hc
    split at hc
    · left
      simp only [List.mem_cons, List.not_mem_nil] at hc ⊢
      grind
    · right
      rw [List.mem_singleton.1 hc]
      exact hd
  simp only [enclosed, List.cons_append, List.mem_cons, List.mem_append, List.mem_flatMap,
    List.not_mem_nil, or_false] at h
  rcases h with rfl | ⟨d, hd, hc⟩ | rfl
  · exact .inl (.head _)
  · exact hchar d hd hc
  · exact .inl (.head _)

/-- Between its words in quotes, a command line holds spaces only. -/
theorem exists_enclosed_of_mem {words : List String} {c : Char}
    (h : c ∈ (commandLine words).toList) :
    c = ' ' ∨ ∃ word ∈ words, c ∈ enclosed word.toList := by
  induction words with
  | nil => cases h
  | cons word words ih =>
      cases words with
      | nil =>
          rw [toList_commandLine_singleton] at h
          exact .inr ⟨word, .head _, h⟩
      | cons next words =>
          rw [toList_commandLine_cons, List.mem_append, List.mem_cons] at h
          rcases h with h | h | h
          · exact .inr ⟨word, .head _, h⟩
          · exact .inl h
          · refine (ih h).imp_right ?_
            rintro ⟨other, hother, hc⟩
            exact ⟨other, .tail _ hother, hc⟩

/-- A command line holds the characters of its words, quotes, backslashes and spaces. -/
theorem mem_commandLine {words : List String} {c : Char} (h : c ∈ (commandLine words).toList) :
    c ∈ ['\'', '\\', ' '] ∨ ∃ word ∈ words, c ∈ word.toList := by
  rcases exists_enclosed_of_mem h with rfl | ⟨word, hword, hc⟩
  · exact .inl (by decide)
  · exact (mem_enclosed hc).imp_right fun hc => ⟨word, hword, hc⟩

/-- A command line starts and ends with a quote. -/
theorem exists_commandLine_eq {words : List String} (h : words ≠ []) :
    ∃ inside, (commandLine words).toList = '\'' :: inside ++ ['\''] := by
  induction words with
  | nil => exact absurd rfl h
  | cons word words ih =>
      cases words with
      | nil => exact ⟨_, toList_commandLine_singleton word⟩
      | cons next words =>
          obtain ⟨inside, hinside⟩ := ih (List.cons_ne_nil _ _)
          refine ⟨word.toList.flatMap enclosedChar ++ '\'' :: ' ' :: '\'' :: inside, ?_⟩
          rw [toList_commandLine_cons, hinside, enclosed]
          simp

/-- There are no blanks to trim. -/
theorem trim_commandLine (words : List String) :
    Text.trim (commandLine words).toList = (commandLine words).toList := by
  by_cases hwords : words = []
  · subst hwords
    rfl
  · obtain ⟨inside, hinside⟩ := exists_commandLine_eq hwords
    have hquote : Text.isBlank '\'' = false := by decide
    rw [hinside, List.cons_append, ← List.nil_append ('\'' :: _), Text.trim_append_cons hquote,
      Text.trimEnd_append_cons hquote]
    rfl

/-- A block needs backticks. -/
theorem fenced?_eq_none {cs : List Char} (h : '\x60' ∉ cs) : fenced? cs = none := by
  have hopener : ∀ here : List Char, '\x60' ∉ here → afterOpener? here = none := by
    intro here hhere
    unfold afterOpener?
    split
    · next c u r l rest =>
      split
      · rw [Option.eq_none_iff_forall_ne_some]
        intro after hafter
        have hrest := Text.after?_eq_some_iff.1 hafter
        apply hhere
        rw [hrest]
        simp [ticks]
      · rfl
    · rfl
  have hnone : Text.firstMatch afterOpener? cs = none := by
    induction cs with
    | nil => rfl
    | cons c cs ih =>
        rw [Text.firstMatch, hopener _ h]
        exact ih fun hmem => h (.tail _ hmem)
  rw [fenced?, hnone, Option.bind_none]

/-- No block is found in a command line whose words hold no backtick. -/
theorem embedded_commandLine {words : List String} (h : ∀ word ∈ words, '\x60' ∉ word.toList) :
    embedded (commandLine words) = commandLine words := by
  have htick : '\x60' ∉ (commandLine words).toList := by
    intro hmem
    rcases mem_commandLine hmem with hc | ⟨word, hword, hc⟩
    · exact absurd hc (by decide)
    · exact h word hword hc
  rw [embedded, fenced?_eq_none htick]

end CurlWarden.Command

namespace CurlWarden.Policy

open Command (commandLine)

variable {limits : Limits} {words : List String} {argv : Argv}

/-! ### Checking a command line -/

/-- The words hold nothing that a shell would act on. -/
def IsUnmarked (words : List String) : Prop :=
  ∀ word ∈ words, ∀ c ∈ word.toList, c ∉ metacharacters

/-- Taken as a text of its own, the command line of the argument vector asks for itself and has the
same argument vector again, unless it is too long. -/
def Survives (limits : Limits) (argv : Argv) : Prop :=
  (commandLine argv.toList).length ≤ limits.maxCommandLength →
    Command.embedded (commandLine argv.toList) = commandLine argv.toList ∧
      check limits (commandLine argv.toList) = .ok argv

theorem guardText_commandLine (hmarks : IsUnmarked words)
    (hlength : (commandLine words).length ≤ limits.maxCommandLength) :
    guardText limits (commandLine words) = .ok () := by
  rw [guardText_eq_ok_iff]
  refine ⟨?_, hlength⟩
  intro c hc
  rcases Command.mem_commandLine hc with hc | ⟨word, hword, hc⟩
  · have hplain : (['\'', '\\', ' '].all fun c => !metacharacters.contains c) = true := by decide
    simpa using List.all_eq_true.1 hplain c hc
  · exact hmarks word hword c hc

theorem survives_of_isUnmarked (hcheck : checkWords limits words = .ok argv)
    (hmarks : IsUnmarked words) : Survives limits argv := by
  obtain ⟨rfl, -⟩ := checkWords_eq_ok_iff.1 hcheck
  intro hlength
  constructor
  · apply Command.embedded_commandLine
    intro word hword htick
    exact hmarks word hword _ htick (by decide)
  · rw [check_eq_ok_iff]
    refine ⟨guardText_commandLine hmarks hlength, argv.toList, ?_, hcheck⟩
    rw [Command.trim_commandLine, Command.words?_commandLine]

/-- The words of a command that was let through are unmarked, since its text is. -/
theorem isUnmarked_of_check {text : String} (h : check limits text = .ok argv) :
    IsUnmarked argv.toList := by
  obtain ⟨hguard, words, hwords, hcheck⟩ := check_eq_ok_iff.1 h
  obtain ⟨rfl, -⟩ := checkWords_eq_ok_iff.1 hcheck
  intro word hword c hc
  apply (guardText_eq_ok_iff.1 hguard).1
  apply (Text.trim_sublist _).subset
  apply (words?_sublist hwords).subset
  exact List.mem_flatMap.2 ⟨word, hword, hc⟩

/-- Every argument vector that is accepted, be it of words that hold no metacharacters or of a
command text, can be written down as a command line, and is found in it again. -/
theorem accepted_survives (limits : Limits) (argv : Argv) :
    (∀ words, checkWords limits words = .ok argv → IsUnmarked words → Survives limits argv) ∧
    (∀ text, check limits text = .ok argv → Survives limits argv) := by
  refine ⟨fun words => survives_of_isUnmarked, ?_⟩
  intro text h
  have hmarks := isUnmarked_of_check h
  obtain ⟨-, words, -, hcheck⟩ := check_eq_ok_iff.1 h
  obtain ⟨rfl, -⟩ := checkWords_eq_ok_iff.1 hcheck
  exact survives_of_isUnmarked hcheck hmarks

/-- A header with a quote in it, and an empty value. -/
theorem accepted_survives_quote :
    check {} "curl -X '' -H \"it's: me\" http://a" =
        .ok ⟨"curl", ["-X", "", "-H", "it's: me", "http://a"]⟩ ∧
      check {} "'curl' '-X' '' '-H' 'it'\\''s: me' 'http://a'" =
        .ok ⟨"curl", ["-X", "", "-H", "it's: me", "http://a"]⟩ := by
  have hcheck : check {} "curl -X '' -H \"it's: me\" http://a" =
      .ok ⟨"curl", ["-X", "", "-H", "it's: me", "http://a"]⟩ := by decide +kernel
  have hline : commandLine ["curl", "-X", "", "-H", "it's: me", "http://a"] =
      "'curl' '-X' '' '-H' 'it'\\''s: me' 'http://a'" := by decide +kernel
  have hsurvives := (accepted_survives {} _).2 _ hcheck
  rw [Survives, Argv.toList, hline] at hsurvives
  exact ⟨hcheck, (hsurvives (by decide +kernel)).2⟩

end CurlWarden.Policy
