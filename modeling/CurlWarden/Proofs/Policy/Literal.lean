import CurlWarden.Proofs.Policy.Check
import CurlWarden.Proofs.Url.Parts

/-!
# The URL that is checked and the URL that is used

The policy judges a URL by its parts, and these describe the clean text: without the controls and
spaces in front, and without tabs and line breaks. The argument vector holds the word as it was
given. So what is known of the clean text is known of the argument only where the two are the same,
and quotes and escapes can put anything into a word.

* `startsHttp_clean` — an accepted URL starts with `http://` or `https://` once it is clean.
* `check_url_is_literal_iff` — the argument itself does so, and is free of tabs and line breaks,
  exactly if it was clean to begin with; and it was, if the command holds no quotes, no backslashes
  and no controls but blanks.
* `not_literal_tab` — a quoted tab in front of the URL is accepted.
-/

namespace CurlWarden

namespace Command

/-- A run between blanks holds no blank. -/
theorem isBlank_of_mem_darkRuns {text run : List Char} {c : Char} (h : run ∈ darkRuns text)
    (hc : c ∈ run) : Text.isBlank c = false := by
  have hrun : run ∈ text.splitOnP Text.isBlank := (List.mem_filter.1 h).1
  clear h
  induction text generalizing run with
  | nil =>
      obtain rfl : run = [] := by simpa using hrun
      cases hc
  | cons d text ih =>
      rw [List.splitOnP_cons_eq_if_modifyHead] at hrun
      split at hrun
      · rcases List.mem_cons.1 hrun with rfl | hrun
        · cases hc
        · exact ih hc hrun
      · next hd =>
        cases hruns : text.splitOnP Text.isBlank with
        | nil => exact absurd hruns (List.splitOnP_ne_nil _ _)
        | cons first runs =>
            rw [hruns] at hrun ih
            rcases List.mem_cons.1 hrun with rfl | hrun
            · rcases List.mem_cons.1 hc with rfl | hc
              · simpa using hd
              · exact ih hc (.head _)
            · exact ih hc (.tail _ hrun)

/-- Without quotes and backslashes, no blank gets into a word. -/
theorem isBlank_of_mem_word {text : List Char} {words : List String} {word : String} {c : Char}
    (hunquoted : IsUnquoted text) (h : words? text = some words) (hword : word ∈ words)
    (hc : c ∈ word.toList) : Text.isBlank c = false := by
  rw [words?, (wordsFrom_of_isUnquoted hunquoted).1, Option.map_some] at h
  obtain rfl := Option.some.inj h
  obtain ⟨run, hrun, rfl⟩ := List.mem_map.1 hword
  exact isBlank_of_mem_darkRuns hrun (by simpa using hc)

end Command

namespace Policy

open Url

variable {limits : Limits} {text : String} {argv : Argv}

/-! ### The URL of an argument vector -/

/-- The only URL among items of which one is a URL. -/
theorem exists_filter_isUrl {items : List Item} (h : items.countP Item.isUrl = 1) :
    ∃ url, items.filter Item.isUrl = [.url url] := by
  rw [List.countP_eq_length_filter] at h
  obtain ⟨item, hitem⟩ := List.length_eq_one_iff.1 h
  have hurl : item.isUrl = true := by
    have hmem : item ∈ items.filter Item.isUrl := hitem ▸ .head _
    exact (List.mem_filter.1 hmem).2
  cases item with
  | url url => exact ⟨url, hitem⟩
  | switch flag => cases hurl
  | valued flag value => cases hurl

/-- What has been accepted as a URL is one, once it is clean. -/
theorem startsHttp_clean {url : String} (h : checkUrl limits url = .ok ()) :
    StartsHttp (clean url.toList) := by
  obtain ⟨parts, hsplit, hfit⟩ := checkUrl_eq_ok_iff.1 h
  have hauthority : parts.authority ≠ [] := by
    intro hnil
    apply hfit.host
    rw [Parts.host, hnil]
    rfl
  obtain ⟨scheme, rest, hscheme, hclean⟩ := exists_of_split? hsplit hfit.absolute hauthority
  refine ⟨scheme, rest, hclean, ?_⟩
  have hmem := hfit.scheme
  rw [hscheme] at hmem
  simp only [schemes, List.mem_cons, List.not_mem_nil, or_false] at hmem
  rcases hmem with hmem | hmem
  · exact .inl (by rw [← hmem, String.toList_ofList])
  · exact .inr (by rw [← hmem, String.toList_ofList])

/-- A URL that is accepted is used as it was checked exactly if it is clean. -/
theorem literal_iff_clean {url : String} (h : checkUrl limits url = .ok ()) :
    StartsHttp url.toList ∧ IsUnbroken url.toList ↔ clean url.toList = url.toList := by
  constructor
  · rintro ⟨hstarts, hunbroken⟩
    exact clean_eq_self_iff.2 ⟨hstarts.head?, hunbroken⟩
  · intro hclean
    have hstarts := startsHttp_clean h
    rw [hclean] at hstarts
    exact ⟨hstarts, (clean_eq_self_iff.1 hclean).2⟩

/-! ### Commands -/

/-- A word of a command without quotes, backslashes and controls that are no blanks is clean. -/
theorem clean_word {words : List String} {word : String}
    (hwords : Command.words? (Text.trim text.toList) = some words) (hword : word ∈ words)
    (hunquoted : Command.IsUnquoted text.toList)
    (hcontrols : ∀ c ∈ text.toList, c.toNat ≤ 0x20 → Text.isBlank c = true) :
    clean word.toList = word.toList := by
  have htrim := Text.trim_sublist text.toList
  have hsolid : ∀ c ∈ word.toList, 0x20 < c.toNat := by
    intro c hc
    apply Nat.lt_of_not_le
    intro hle
    have hmem : c ∈ text.toList := by
      apply htrim.subset
      apply (words?_sublist hwords).subset
      exact List.mem_flatMap.2 ⟨word, hword, hc⟩
    have hdark := Command.isBlank_of_mem_word (fun d hd => hunquoted d (htrim.subset hd)) hwords
      hword hc
    rw [hcontrols c hmem hle] at hdark
    cases hdark
  apply clean_eq_self_iff.2
  refine ⟨fun c hc => hsolid c (List.mem_of_mem_head? hc), fun c hc => ?_⟩
  have := hsolid c hc
  refine ⟨?_, ?_, ?_⟩ <;> rintro rfl <;> revert this <;> decide

/-- The URL that is used is the URL that was checked, with a scheme in front and without tabs and
line breaks, exactly if it is clean: only the clean text is known to be one. -/
theorem check_url_is_literal_iff (limits : Limits) (text : String) (argv : Argv)
    (h : check limits text = .ok argv) :
    ∃ items url, IsCommand limits items argv.toList ∧ items.filter Item.isUrl = [.url url] ∧
      StartsHttp (clean url.toList) ∧
      (StartsHttp url.toList ∧ IsUnbroken url.toList ↔ clean url.toList = url.toList) ∧
      (Command.IsUnquoted text.toList →
        (∀ c ∈ text.toList, c.toNat ≤ 0x20 → Text.isBlank c = true) →
        StartsHttp url.toList ∧ IsUnbroken url.toList) := by
  obtain ⟨-, words, hwords, hcheck⟩ := check_eq_ok_iff.1 h
  obtain ⟨rfl, items, hcommand⟩ := checkWords_eq_ok_iff.1 hcheck
  obtain ⟨url, hurl⟩ := exists_filter_isUrl hcommand.one_url
  have hitem : Item.url url ∈ items := by
    have hmem : Item.url url ∈ items.filter Item.isUrl := hurl ▸ .head _
    exact (List.mem_filter.1 hmem).1
  have haccepted : checkUrl limits url = .ok () := (hcommand.fits _ hitem).2
  have hword : url ∈ argv.toList := by
    rw [hcommand.spelled]
    exact .tail _ (List.mem_flatMap.2 ⟨_, hitem, .head _⟩)
  have hiff := literal_iff_clean haccepted
  refine ⟨items, url, hcommand, hurl, startsHttp_clean haccepted, hiff, ?_⟩
  intro hunquoted hcontrols
  exact hiff.2 (clean_word hwords hword hunquoted hcontrols)

/-- A plain command for a plain URL. -/
theorem check_url_is_literal_plain :
    check {} "curl http://a" = .ok ⟨"curl", ["http://a"]⟩ ∧
      ∃ items url, IsCommand {} items ["curl", "http://a"] ∧
        items.filter Item.isUrl = [.url url] ∧ StartsHttp url.toList ∧ IsUnbroken url.toList := by
  have hcheck : check {} "curl http://a" = .ok ⟨"curl", ["http://a"]⟩ := by decide +kernel
  obtain ⟨items, url, hcommand, hurl, -, -, hliteral⟩ :=
    check_url_is_literal_iff {} "curl http://a" _ hcheck
  have hunquoted : "curl http://a".toList.all
      (fun c => decide (c ≠ '\'' ∧ c ≠ '"' ∧ c ≠ '\\')) = true := by decide +kernel
  have hcontrols : "curl http://a".toList.all
      (fun c => decide (c.toNat ≤ 0x20 → Text.isBlank c = true)) = true := by decide +kernel
  refine ⟨hcheck, items, url, hcommand, hurl, hliteral ?_ ?_⟩
  · intro c hc
    exact of_decide_eq_true (List.all_eq_true.1 hunquoted c hc)
  · intro c hc
    exact of_decide_eq_true (List.all_eq_true.1 hcontrols c hc)

/-- A tab in quotes gets to the front of the URL that is used. -/
theorem not_literal_tab :
    ¬ ∀ argv, check {} "curl '\thttp://a'" = .ok argv → ∀ items, IsCommand {} items argv.toList →
      ∀ url, Item.url url ∈ items → StartsHttp url.toList ∧ IsUnbroken url.toList := by
  intro h
  have hcheck : check {} "curl '\thttp://a'" = .ok ⟨"curl", ["\thttp://a"]⟩ := by decide +kernel
  have hcommand : IsCommand {} [.url "\thttp://a"] ["curl", "\thttp://a"] := by
    refine ⟨rfl, ?_, rfl⟩
    intro item hitem
    obtain rfl := List.mem_singleton.1 hitem
    exact ⟨by decide, by decide +kernel⟩
  obtain ⟨-, hunbroken⟩ := h _ hcheck _ hcommand _ (.head _)
  exact (hunbroken '\t' (by decide)).1 rfl

end Policy

end CurlWarden
