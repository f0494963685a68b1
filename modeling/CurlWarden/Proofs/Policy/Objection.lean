import CurlWarden.Proofs.Policy.Values

/-!
# The first objection

The policy walks over the words of a command and reports the first thing that it objects to. Here
its report is described without a walk. Acceptable items come first; then the words begin with
something that is objected to, whatever else may follow (`Objects`). Only words without any such
item are judged as a whole, by the number of URLs among them.

* `countUrls_eq_error_iff` — the walk stops with a violation exactly at the first item that is
  objected to. As for the words that are accepted, soundness follows the recursion of the walk, and
  the other direction the list of items in front.
* `checkWords_eq_error_iff` — the same of the whole judgement (`Reports`).
* `Objects.append` — an objection depends on nothing behind the item, except that a flag at the end
  of the words may still get its value.
* `checkWords_error_append` — what a longer command can make of a report.
-/

namespace CurlWarden.Policy

variable {limits : Limits} {words more : List String} {v : Violation}

/-! ### Objections -/

/-- The words begin with an item that the policy objects to. -/
inductive Objects (limits : Limits) : List String → Violation → Prop where
  | url {word : String} {v : Violation} (rest : List String) (hword : isFlagWord word = false)
      (h : checkUrl limits word = .error v) : Objects limits (word :: rest) v
  | flag {word : String} {v : Violation} (rest : List String) (hword : isFlagWord word = true)
      (h : checkFlag word = .error v) : Objects limits (word :: rest) v
  | value {flag : Flag} {value : String} {v : Violation} (rest : List String)
      (htakes : flag.takesValue = true) (h : checkValue limits flag value = .error v) :
      Objects limits (flag.spelling :: value :: rest) v
  | valueless {flag : Flag} (htakes : flag.takesValue = true) :
      Objects limits [flag.spelling] ⟨.missingFlagValue, some flag.spelling⟩

/-- May an item be objected to for this reason? The others are about a command as a whole. -/
def concernsItem : Reason → Bool
  | .shellMetacharacter | .commandTooLong | .emptyCommand | .programMismatch | .missingUrl
  | .multipleUrls => false
  | _ => true

theorem concernsItem_of_checkUrl {url : String} (h : checkUrl limits url = .error v) :
    concernsItem v.reason = true := by
  unfold checkUrl at h
  split at h
  · cases h
    rfl
  · -- One case for each check on the parts, in their order.
    repeat' split at h
    all_goals cases h
    all_goals rfl

theorem concernsItem_of_checkFlag {word : String} (h : checkFlag word = .error v) :
    concernsItem v.reason = true := by
  unfold checkFlag at h
  split at h
  · cases h
    rfl
  split at h
  · cases h
    rfl
  · cases h

theorem concernsItem_of_checkValue {flag : Flag} {value : String}
    (h : checkValue limits flag value = .error v) : concernsItem v.reason = true := by
  unfold checkValue at h
  split at h
  · cases h
    rfl
  split at h
  · cases h
    rfl
  · cases h

namespace Objects

theorem concernsItem_reason (h : Objects limits words v) : concernsItem v.reason = true := by
  cases h with
  | url rest _ h => exact concernsItem_of_checkUrl h
  | flag rest _ h => exact concernsItem_of_checkFlag h
  | value rest _ h => exact concernsItem_of_checkValue h
  | valueless => rfl

/-- What follows an item that is objected to does not matter, unless the item is not complete. -/
theorem append (h : Objects limits words v) (hreason : v.reason ≠ .missingFlagValue)
    (more : List String) : Objects limits (words ++ more) v := by
  cases h with
  | url rest hword h => exact .url (rest ++ more) hword h
  | flag rest hword h => exact .flag (rest ++ more) hword h
  | value rest htakes h => exact .value (rest ++ more) htakes h
  | valueless => exact absurd rfl hreason

theorem countUrls_eq (h : Objects limits words v) (urls : Nat) :
    countUrls limits urls words = .error v := by
  cases h with
  | url rest hword h => simp only [countUrls, hword, h, Bool.false_eq_true, if_false]
  | flag rest hword h => simp only [countUrls, hword, h, if_true]
  | value rest htakes h => rw [countUrls_valued htakes, h]
  | valueless htakes =>
      have hflag := checkFlag_eq_ok_iff.2 ⟨rfl, Flag.isAllowed_of_takesValue htakes⟩
      simp only [countUrls, isFlagWord_spelling, hflag, htakes, if_true]

end Objects

/-! ### The walk -/

/-- The words are acceptable items, and then something that is objected to. -/
def ObjectsFirst (limits : Limits) (words : List String) (v : Violation) : Prop :=
  ∃ (items : List Item) (rest : List String), words = items.flatMap Item.words ++ rest ∧
    (∀ item ∈ items, item.Fits limits) ∧ Objects limits rest v

theorem Objects.first (h : Objects limits words v) : ObjectsFirst limits words v :=
  ⟨[], words, rfl, nofun, h⟩

/-- An acceptable item in front changes nothing. -/
theorem ObjectsFirst.cons (h : ObjectsFirst limits words v) {item : Item}
    (hitem : item.Fits limits) : ObjectsFirst limits (item.words ++ words) v := by
  obtain ⟨items, rest, rfl, hitems, hobjects⟩ := h
  refine ⟨item :: items, rest, ?_, List.forall_mem_cons.2 ⟨hitem, hitems⟩, hobjects⟩
  rw [List.flatMap_cons, List.append_assoc]

theorem ObjectsFirst.append (h : ObjectsFirst limits words v)
    (hreason : v.reason ≠ .missingFlagValue) (more : List String) :
    ObjectsFirst limits (words ++ more) v := by
  obtain ⟨items, rest, rfl, hitems, hobjects⟩ := h
  exact ⟨items, rest ++ more, List.append_assoc _ _ _, hitems, hobjects.append hreason more⟩

theorem objectsFirst_of_countUrls {urls : Nat} (h : countUrls limits urls words = .error v) :
    ObjectsFirst limits words v := by
  -- Cases 5, 6 and 8 pass over one item and walk on; the others stop, all but the first for cause.
  fun_induction countUrls limits urls words with
  | case1 => cases h
  | case2 urls word rest hdash w hflag =>
      cases h
      exact (Objects.flag rest hdash hflag).first
  | case3 urls word _ flag hflag htakes =>
      cases h
      obtain ⟨rfl, -⟩ := checkFlag_eq_ok_iff.1 hflag
      exact (Objects.valueless htakes).first
  | case4 urls word _ flag hflag htakes value rest w hvalue =>
      cases h
      obtain ⟨rfl, -⟩ := checkFlag_eq_ok_iff.1 hflag
      exact (Objects.value rest htakes hvalue).first
  | case5 urls word _ flag hflag htakes value rest hvalue ih =>
      obtain ⟨rfl, -⟩ := checkFlag_eq_ok_iff.1 hflag
      have hfits : (Item.valued flag value).Fits limits := ⟨htakes, checkValue_eq_ok_iff.1 hvalue⟩
      exact (ih h).cons hfits
  | case6 urls word rest _ flag hflag htakes ih =>
      obtain ⟨rfl, hallowed⟩ := checkFlag_eq_ok_iff.1 hflag
      have hfits : (Item.switch flag).Fits limits := ⟨hallowed, by simpa using htakes⟩
      exact (ih h).cons hfits
  | case7 urls word rest hdash w hurl =>
      cases h
      exact (Objects.url rest (by simpa using hdash) hurl).first
  | case8 urls word rest hdash hurl ih =>
      have hfits : (Item.url word).Fits limits := ⟨by simpa using hdash, hurl⟩
      exact (ih h).cons hfits

/-- The walk reports the first item that is objected to. -/
theorem countUrls_eq_error_iff {urls : Nat} :
    countUrls limits urls words = .error v ↔ ObjectsFirst limits words v := by
  refine ⟨objectsFirst_of_countUrls, ?_⟩
  rintro ⟨items, rest, rfl, hitems, hobjects⟩
  rw [countUrls_items_append hitems, hobjects.countUrls_eq]

/-! ### The judgement -/

/-- The words are the program and then acceptable items, `urls` of them URLs. -/
def HasUrls (limits : Limits) (words : List String) (urls : Nat) : Prop :=
  ∃ items : List Item, words = Command.program :: items.flatMap Item.words ∧
    (∀ item ∈ items, item.Fits limits) ∧ items.countP Item.isUrl = urls

/-- What is reported of words that are not accepted. -/
inductive Reports (limits : Limits) : List String → Violation → Prop where
  | empty : Reports limits [] ⟨.emptyCommand, none⟩
  | program {word : String} (rest : List String) (h : word ≠ Command.program) :
      Reports limits (word :: rest) ⟨.programMismatch, none⟩
  | item {rest : List String} {v : Violation} (h : ObjectsFirst limits rest v) :
      Reports limits (Command.program :: rest) v
  | noUrl {words : List String} (h : HasUrls limits words 0) :
      Reports limits words ⟨.missingUrl, none⟩
  | urls {words : List String} {urls : Nat} (h : HasUrls limits words urls) (hmany : 2 ≤ urls) :
      Reports limits words ⟨.multipleUrls, none⟩

theorem hasUrls_cons_iff {urls : Nat} : HasUrls limits (Command.program :: words) urls ↔
    countUrls limits 0 words = .ok urls := by
  rw [countUrls_eq_ok_iff]
  simp only [HasUrls, List.cons.injEq, true_and, Nat.zero_add, eq_comm]

theorem checkWords_cons_eq_error_iff : checkWords limits (Command.program :: words) = .error v ↔
    countUrls limits 0 words = .error v ∨
      countUrls limits 0 words = .ok 0 ∧ v = ⟨.missingUrl, none⟩ ∨
      ∃ urls, countUrls limits 0 words = .ok urls ∧ 2 ≤ urls ∧ v = ⟨.multipleUrls, none⟩ := by
  rw [checkWords, if_neg (not_not_intro rfl)]
  cases countUrls limits 0 words with
  | error w => simp
  | ok urls =>
      obtain _ | _ | urls := urls
      · simp [eq_comm]
      · simp
      · simp [eq_comm]

theorem HasUrls.exists_cons {urls : Nat} (h : HasUrls limits words urls) :
    ∃ rest, words = Command.program :: rest := by
  obtain ⟨items, rfl, -⟩ := h
  exact ⟨_, rfl⟩

/-- Words are refused with the report that is described, and no other. -/
theorem checkWords_eq_error_iff : checkWords limits words = .error v ↔ Reports limits words v := by
  constructor
  · intro h
    cases words with
    | nil =>
        cases h
        exact .empty
    | cons word rest =>
        by_cases hword : word = Command.program
        · subst hword
          rcases checkWords_cons_eq_error_iff.1 h with
            hwalk | ⟨hwalk, rfl⟩ | ⟨urls, hwalk, hmany, rfl⟩
          · exact .item (countUrls_eq_error_iff.1 hwalk)
          · exact .noUrl (hasUrls_cons_iff.2 hwalk)
          · exact .urls (hasUrls_cons_iff.2 hwalk) hmany
        · rw [checkWords, if_pos hword] at h
          cases h
          exact .program rest hword
  · intro h
    cases h with
    | empty => rfl
    | program rest h => rw [checkWords, if_pos h]
    | item h => exact checkWords_cons_eq_error_iff.2 (.inl (countUrls_eq_error_iff.2 h))
    | noUrl h =>
        obtain ⟨rest, rfl⟩ := h.exists_cons
        exact checkWords_cons_eq_error_iff.2 (.inr (.inl ⟨hasUrls_cons_iff.1 h, rfl⟩))
    | urls h hmany =>
        obtain ⟨rest, rfl⟩ := h.exists_cons
        exact checkWords_cons_eq_error_iff.2 (.inr (.inr ⟨_, hasUrls_cons_iff.1 h, hmany, rfl⟩))

/-! ### Longer commands -/

/-- The reports that a longer command may change: there were too few words, or too many URLs. -/
def openReasons : List Reason := [.emptyCommand, .missingUrl, .missingFlagValue, .multipleUrls]

/-- What comes behind a violation does not change it. -/
theorem Reports.append (h : Reports limits words v) (hreason : v.reason ∉ openReasons)
    (more : List String) : Reports limits (words ++ more) v := by
  cases h with
  | empty => exact absurd (by decide) hreason
  | program rest h => exact .program (rest ++ more) h
  | item h =>
      refine .item (h.append ?_ more)
      rintro hvalue
      rw [hvalue] at hreason
      exact hreason (by decide)
  | noUrl => exact absurd (by decide) hreason
  | urls => exact absurd (by decide) hreason

/-- URLs that are acceptable stay so in a longer command. -/
theorem HasUrls.le_of_append {urls total : Nat} (h : HasUrls limits words urls)
    (hmore : HasUrls limits (words ++ more) total) : urls ≤ total := by
  obtain ⟨items, rfl, hitems, rfl⟩ := h
  rw [List.cons_append, hasUrls_cons_iff, countUrls_items_append hitems,
    countUrls_eq_ok_iff] at hmore
  obtain ⟨_, _, _, rfl⟩ := hmore
  omega

theorem HasUrls.exists_error_append {urls : Nat} (h : HasUrls limits words urls)
    (hmany : 2 ≤ urls) (more : List String) :
    ∃ v, checkWords limits (words ++ more) = .error v := by
  cases hcheck : checkWords limits (words ++ more) with
  | error v => exact ⟨v, rfl⟩
  | ok argv =>
      obtain ⟨-, items, hspelled, hfits, hone⟩ := checkWords_eq_ok_iff.1 hcheck
      have hle := h.le_of_append ⟨items, hspelled, hfits, rfl⟩
      omega

/-- A report that counts URLs counts those of all the words. -/
theorem Reports.hasUrls (h : Reports limits words v) :
    (v.reason = .missingUrl → HasUrls limits words 0) ∧
    (v.reason = .multipleUrls → ∃ urls, HasUrls limits words urls ∧ 2 ≤ urls) := by
  cases h with
  | empty => exact ⟨nofun, nofun⟩
  | program => exact ⟨nofun, nofun⟩
  | item h =>
      obtain ⟨_, _, _, _, hobjects⟩ := h
      have hitem := hobjects.concernsItem_reason
      refine ⟨fun hreason => ?_, fun hreason => ?_⟩
      · rw [hreason] at hitem
        cases hitem
      · rw [hreason] at hitem
        cases hitem
  | noUrl h => exact ⟨fun _ => h, nofun⟩
  | urls h hmany => exact ⟨nofun, fun _ => ⟨_, h, hmany⟩⟩

/-- The first violation is the one that is reported, and no further words can rescue a command that
is refused. Its report stays the same whatever follows, unless it says that words are missing or
that there are too many URLs; in this last case the longer command is refused as well. The number of
URLs is reported only if all the words are acceptable items, and it is the number of URLs among
them. -/
theorem checkWords_error_append (limits : Limits) (words : List String) (v : Violation) :
    (checkWords limits words = .error v ↔ Reports limits words v) ∧
    (checkWords limits words = .error v →
      (v.reason ∉ openReasons → ∀ more, checkWords limits (words ++ more) = .error v) ∧
      (v.reason = .multipleUrls → ∀ more, ∃ w, checkWords limits (words ++ more) = .error w) ∧
      (v.reason = .missingUrl → HasUrls limits words 0) ∧
      (v.reason = .multipleUrls → ∃ urls, HasUrls limits words urls ∧ 2 ≤ urls)) := by
  refine ⟨checkWords_eq_error_iff, fun h => ?_⟩
  have hreports := checkWords_eq_error_iff.1 h
  obtain ⟨hnone, hmany⟩ := hreports.hasUrls
  refine ⟨fun hreason more => ?_, fun hreason more => ?_, hnone, hmany⟩
  · exact checkWords_eq_error_iff.2 (hreports.append hreason more)
  · obtain ⟨urls, hurls, htwo⟩ := hmany hreason
    exact hurls.exists_error_append htwo more

/-- A URL comes too late for a flag that is forbidden, but is one too many after two others. -/
theorem checkWords_error_append_late :
    (∀ more, checkWords {} (["curl", "-s", "-o"] ++ more) =
      .error ⟨.flagNotAllowed, some "-o"⟩) ∧
    (∀ more, ∃ w, checkWords {} (["curl", "http://a", "-s", "http://b"] ++ more) = .error w) ∧
    HasUrls {} ["curl", "-s"] 0 := by
  have hdenied : checkWords {} ["curl", "-s", "-o"] = .error ⟨.flagNotAllowed, some "-o"⟩ :=
    rfl
  have htwo : checkWords {} ["curl", "http://a", "-s", "http://b"] =
      .error ⟨.multipleUrls, none⟩ :=
    rfl
  have hnone : checkWords {} ["curl", "-s"] = .error ⟨.missingUrl, none⟩ := rfl
  obtain ⟨hstays, -⟩ := (checkWords_error_append {} _ _).2 hdenied
  obtain ⟨-, hrefused, -⟩ := (checkWords_error_append {} _ _).2 htwo
  obtain ⟨-, -, hcount, -⟩ := (checkWords_error_append {} _ _).2 hnone
  exact ⟨hstays (by decide), hrefused rfl, hcount rfl⟩

end CurlWarden.Policy
