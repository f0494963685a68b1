import CurlWarden.Policy.Check
import CurlWarden.Proofs.Command.Splitting
import CurlWarden.Proofs.Policy.Grammar
import CurlWarden.Proofs.Text.Trim

/-!
# What a checked command is made of

`check` looks at three different texts: the raw text is guarded, the trimmed text is split into
words, and the words are walked over. `check_eq_ok_iff` takes it apart into these stages, and
`check_isSafe` puts their guarantees together into one statement about the argument vector. What
ties the stages together is that splitting only leaves characters out (`words?_sublist`): whatever
the guard has not seen cannot come up in a word.
-/

namespace CurlWarden.Policy

/-! ### The stages -/

theorem guardText_eq_ok_iff {limits : Limits} {text : String} :
    guardText limits text = .ok () ↔
      (∀ c ∈ text.toList, c ∉ metacharacters) ∧ text.length ≤ limits.maxCommandLength := by
  rw [guardText]
  by_cases hmeta : text.toList.any metacharacters.contains = true
  · have : ¬ ∀ c ∈ text.toList, c ∉ metacharacters := by simpa using hmeta
    simp only [hmeta, if_true, this, false_and, iff_false]
    exact nofun
  · have : ∀ c ∈ text.toList, c ∉ metacharacters := by simpa using hmeta
    by_cases hlength : limits.maxCommandLength < text.length
    · simp only [hmeta, hlength, if_true]
      simp [Int.not_le.2 hlength]
    · simp only [hmeta, hlength, if_false]
      simpa [Int.not_lt.1 hlength] using this

theorem check_eq_ok_iff {limits : Limits} {text : String} {argv : Argv} :
    check limits text = .ok argv ↔ guardText limits text = .ok () ∧
      ∃ words, Command.words? (Text.trim text.toList) = some words ∧
        checkWords limits words = .ok argv := by
  rw [check]
  cases guardText limits text with
  | error v => simp
  | ok _ =>
      cases Command.words? (Text.trim text.toList) with
      | none => simp
      | some words => cases hwords : checkWords limits words <;> simp [Except.mapError, hwords]

/-! ### Nothing is added on the way -/

/-- Splitting a text leaves some of its characters out and keeps the others in order. -/
theorem words?_sublist {text : List Char} {words : List String}
    (h : Command.words? text = some words) : (words.flatMap String.toList).Sublist text := by
  obtain ⟨r, -, rfl, rfl⟩ := Command.exists_reading_of_words? h
  exact r.tokens_sublist_text

/-! ### Safe argument vectors -/

/-- What a safe item is, with every limit that applies to it. -/
def Item.IsSafe (limits : Limits) : Item → Prop
  | .url word =>
    isFlagWord word = false ∧ checkUrl limits word = .ok () ∧ word.length ≤ limits.maxUrlLength
  | .switch flag => flag.isAllowed = true ∧ flag.takesValue = false
  | .valued flag value =>
    flag.isAllowed = true ∧ flag.takesValue = true ∧
      ((flag.carriesData || flag.carriesHeader) = true → flag.readsFile value = false) ∧
      (flag.carriesHeader = true → value.length ≤ limits.maxHeaderLength)

theorem Item.Fits.isSafe {limits : Limits} {item : Item} (h : item.Fits limits) :
    item.IsSafe limits := by
  cases item with
  | url word =>
      obtain ⟨parts, -, hparts⟩ := checkUrl_eq_ok_iff.1 h.2
      exact ⟨h.1, h.2, hparts.length_le⟩
  | switch flag => exact h
  | valued flag value =>
      exact ⟨Flag.isAllowed_of_takesValue h.1, h.1,
        fun _ => readsFile_eq_false_iff.2 ⟨h.2.encoded, h.2.literal⟩, h.2.header⟩

end CurlWarden.Policy

namespace CurlWarden

open Policy

/-- What holds of an argument vector that a command text is allowed to have. -/
structure Argv.IsSafe (limits : Limits) (text : String) (argv : Argv) : Prop where
  program : argv.program = "curl"
  /-- The arguments split into safe items, exactly one of them a URL. -/
  items : ∃ items : List Item, argv.arguments = items.flatMap Item.words ∧
    (∀ item ∈ items, item.IsSafe limits) ∧ items.countP Item.isUrl = 1
  /-- The words, one after the other, are the text with some characters left out. -/
  sublist : (argv.toList.flatMap String.toList).Sublist text.toList
  unmarked : ∀ word ∈ argv.toList, ∀ c ∈ word.toList, c ∉ ['|', '&', ';', '>', '<', '\x60']
  /-- The lengths of the words add up to no more than a command may have. -/
  length_le : ((argv.toList.map String.length).foldr (· + ·) 0 : Nat) ≤ limits.maxCommandLength

theorem Policy.check_isSafe {limits : Limits} {text : String} {argv : Argv}
    (h : check limits text = .ok argv) : argv.IsSafe limits text := by
  obtain ⟨hguard, words, hwords, hcheck⟩ := check_eq_ok_iff.1 h
  obtain ⟨hmeta, hlength⟩ := guardText_eq_ok_iff.1 hguard
  obtain ⟨rfl, items, hspelled, hfits, hone⟩ := checkWords_eq_ok_iff.1 hcheck
  obtain ⟨hprogram, harguments⟩ := List.cons.inj hspelled
  have hsublist := (words?_sublist hwords).trans (Text.trim_sublist _)
  refine ⟨hprogram, ⟨items, harguments, fun i hi => (hfits i hi).isSafe, hone⟩, hsublist, ?_, ?_⟩
  · intro word hword c hc
    exact hmeta c (hsublist.subset (List.mem_flatMap.2 ⟨word, hword, hc⟩))
  · have hle : (argv.toList.map String.length).foldr (· + ·) 0 ≤ text.length := by
      rw [← List.sum_eq_foldr]
      simpa [List.length_flatMap, String.length_toList] using hsublist.length_le
    omega

end CurlWarden
