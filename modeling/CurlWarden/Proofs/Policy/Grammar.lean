import CurlWarden.Policy.Arguments

/-!
# The grammar of argument vectors

The policy walks over the words of a command and takes one word or two at each step, so what a word
means depends on everything before it. This module says what is accepted without a walk: the words
after the program split into *items*, each of them a URL, a flag, or a flag with its value, every
item is acceptable by itself, and exactly one is a URL.

* `countUrls_eq_ok_iff` — the walk reaches the end exactly if the words split into acceptable
  items, and counts the URLs among them. Soundness follows the recursion of the walk, completeness
  the list of items.
* `Item.eq_of_flatMap_words_eq` — the split is unique, whether or not the items are acceptable: the
  first word of an item tells its kind.
-/

namespace CurlWarden.Policy

/-! ### Items -/

/-- What the walk takes in one step. -/
inductive Item where
  | url (word : String)
  | switch (flag : Flag)
  | valued (flag : Flag) (value : String)
  deriving DecidableEq, Repr

/-- The value has an at sign before any equals sign. -/
def NamesSource (value : String) : Prop :=
  ∃ before after, value.toList = before ++ '@' :: after ∧ '=' ∉ before

/-- May the flag have this value? Data and headers may not come from a file, which an at sign in
front would name, and in URL-encoded data one before the first equals sign. -/
structure ValueFits (limits : Limits) (flag : Flag) (value : String) : Prop where
  encoded : flag = .dataUrlencode → ¬ NamesSource value
  literal : flag ≠ .dataUrlencode → (flag.carriesData || flag.carriesHeader) = true →
    ∀ rest, value.toList ≠ '@' :: rest
  header : flag.carriesHeader = true → value.length ≤ limits.maxHeaderLength

namespace Item

/-- The words of the item. -/
def words : Item → List String
  | .url word => [word]
  | .switch flag => [flag.spelling]
  | .valued flag value => [flag.spelling, value]

/-- Is the item a URL? -/
def isUrl : Item → Bool
  | .url _ => true
  | _ => false

/-- Do the words of the item show what kind of item it is? -/
def IsShaped : Item → Prop
  | .url word => isFlagWord word = false
  | .switch flag => flag.takesValue = false
  | .valued flag _ => flag.takesValue = true

/-- Is the item acceptable by itself? -/
def Fits (limits : Limits) : Item → Prop
  | .url word => isFlagWord word = false ∧ checkUrl limits word = .ok ()
  | .switch flag => flag.isAllowed = true ∧ flag.takesValue = false
  | .valued flag value => flag.takesValue = true ∧ ValueFits limits flag value

theorem Fits.isShaped {limits : Limits} {item : Item} (h : item.Fits limits) : item.IsShaped := by
  cases item with
  | url word => exact h.1
  | switch flag => exact h.2
  | valued flag value => exact h.1

end Item

/-- `words` is the program followed by the words of acceptable items, one of them a URL. -/
structure IsCommand (limits : Limits) (items : List Item) (words : List String) : Prop where
  spelled : words = Command.program :: items.flatMap Item.words
  fits : ∀ item ∈ items, item.Fits limits
  one_url : items.countP Item.isUrl = 1

/-! ### The checks on one item -/

theorem isFlagWord_spelling (flag : Flag) : isFlagWord flag.spelling = true := by
  cases flag <;> decide

theorem contains_takeWhile_iff {value : String} :
    (value.toList.takeWhile (· != '=')).contains '@' = true ↔ NamesSource value := by
  rw [List.contains_iff_mem]
  constructor
  · intro h
    obtain ⟨before, after, hsplit⟩ := List.append_of_mem h
    refine ⟨before, after ++ value.toList.dropWhile (· != '='), ?_, fun heq => ?_⟩
    · rw [← List.cons_append, ← List.append_assoc, ← hsplit, List.takeWhile_append_dropWhile]
    · have hmem : '=' ∈ value.toList.takeWhile (· != '=') := by
        rw [hsplit]
        exact List.mem_append_left _ heq
      simpa using List.all_eq_true.1 List.all_takeWhile _ hmem
  · rintro ⟨before, after, hvalue, hbefore⟩
    have hpos : ∀ c ∈ before, (c != '=') = true := fun c hc => by
      simpa using fun h : c = '=' => hbefore (h ▸ hc)
    rw [hvalue, List.takeWhile_append_of_pos hpos]
    simp

theorem readsFile_eq_false_iff {flag : Flag} {value : String} :
    flag.readsFile value = false ↔
      (flag = .dataUrlencode → ¬ NamesSource value) ∧
      (flag ≠ .dataUrlencode → (flag.carriesData || flag.carriesHeader) = true →
        ∀ rest, value.toList ≠ '@' :: rest) := by
  rw [Flag.readsFile]
  split
  · next h => simp [h, ← contains_takeWhile_iff]
  · next h =>
    split
    · next hcarries =>
      cases value.toList <;> simp [h, hcarries]
    · next hcarries => simp [h, hcarries]

theorem checkValue_eq_ok_iff {limits : Limits} {flag : Flag} {value : String} :
    checkValue limits flag value = .ok () ↔ ValueFits limits flag value := by
  have hfile : flag.readsFile value = false ∧
      (flag.carriesHeader = true → (value.length : Int) ≤ limits.maxHeaderLength) ↔
      ValueFits limits flag value := by
    rw [readsFile_eq_false_iff]
    exact ⟨fun h => ⟨h.1.1, h.1.2, h.2⟩, fun h => ⟨⟨h.encoded, h.literal⟩, h.header⟩⟩
  rw [← hfile, checkValue]
  cases flag.readsFile value with
  | true => simp
  | false =>
      cases flag.carriesHeader with
      | false => simp
      | true =>
          by_cases h : limits.maxHeaderLength < value.length
          · simp [h]
          · have hle : (value.length : Int) ≤ limits.maxHeaderLength := by omega
            simp [h, hle]

/-- What the policy asks of the parts of a URL. -/
structure PartsFit (limits : Limits) (url : String) (parts : Url.Parts) : Prop where
  absolute : parts.scheme ≠ []
  scheme : String.ofList parts.scheme ∈ schemes
  anonymous : parts.hasCredentials = false
  host : parts.host ≠ []
  single : parts.isPattern = false
  length_le : url.length ≤ limits.maxUrlLength

theorem checkUrl_eq_ok_iff {limits : Limits} {url : String} :
    checkUrl limits url = .ok () ↔
      ∃ parts, Url.Parts.split? url.toList = some parts ∧ PartsFit limits url parts := by
  rw [checkUrl]
  cases Url.Parts.split? url.toList with
  | none => simp
  | some parts =>
      constructor
      · intro h
        refine ⟨parts, rfl, ?_, ?_, ?_, ?_, ?_, ?_⟩ <;> grind
      · rintro ⟨parts, ⟨⟩, h⟩
        simp [h.absolute, h.scheme, h.anonymous, h.host, h.single, Int.not_lt.2 h.length_le]

theorem checkFlag_eq_ok_iff {word : String} {flag : Flag} :
    checkFlag word = .ok flag ↔ word = flag.spelling ∧ flag.isAllowed = true := by
  rw [checkFlag]
  cases hw : Flag.ofSpelling? word with
  | none =>
      have hne : word ≠ flag.spelling := fun h => by
        rw [Flag.ofSpelling?_eq_some_iff.2 h.symm] at hw
        cases hw
      simp [hne]
  | some known =>
      obtain rfl := Flag.ofSpelling?_eq_some_iff.1 hw
      have hspelling : known.spelling = flag.spelling ↔ known = flag :=
        ⟨Flag.spelling_injective, congrArg _⟩
      rw [hspelling]
      by_cases ha : known.isAllowed = true
      · simp only [Flag.isDenied, ha]
        grind
      · simp only [Flag.isDenied, ha]
        grind

/-! ### The walk -/

/-- One step of the walk. -/
theorem countUrls_item {limits : Limits} {item : Item} (h : item.Fits limits) (urls : Nat)
    (rest : List String) :
    countUrls limits urls (item.words ++ rest)
      = countUrls limits (urls + [item].countP Item.isUrl) rest := by
  cases item with
  | url word => simp [Item.words, Item.isUrl, countUrls, h.1, h.2]
  | switch flag =>
      have hflag := checkFlag_eq_ok_iff.2 ⟨rfl, h.1⟩
      simp [Item.words, Item.isUrl, countUrls, isFlagWord_spelling, hflag, h.2]
  | valued flag value =>
      have hflag := checkFlag_eq_ok_iff.2 ⟨rfl, Flag.isAllowed_of_takesValue h.1⟩
      have hvalue := checkValue_eq_ok_iff.2 h.2
      simp [Item.words, Item.isUrl, countUrls, isFlagWord_spelling, hflag, hvalue, h.1]

theorem countUrls_items {limits : Limits} {items : List Item}
    (h : ∀ item ∈ items, item.Fits limits) (urls : Nat) :
    countUrls limits urls (items.flatMap Item.words) = .ok (urls + items.countP Item.isUrl) := by
  induction items generalizing urls with
  | nil => rfl
  | cons item items ih =>
      rw [List.flatMap_cons, countUrls_item (h item (.head _)), ih fun i hi => h i (.tail _ hi),
        ← List.singleton_append (l := items), List.countP_append, Nat.add_assoc]

/-- The words that the walk passes over split into acceptable items. -/
theorem exists_items_of_countUrls {limits : Limits} {urls n : Nat} {words : List String}
    (h : countUrls limits urls words = .ok n) :
    ∃ items : List Item, words = items.flatMap Item.words ∧
      (∀ item ∈ items, item.Fits limits) ∧ n = urls + items.countP Item.isUrl := by
  -- Cases 5, 6 and 8 pass over one item and walk on; the others stop, the first at the end.
  fun_induction countUrls limits urls words with
  | case1 urls => exact ⟨[], rfl, by simp, by simpa using h.symm⟩
  | case2 => cases h
  | case3 => cases h
  | case4 => cases h
  | case5 urls word _ flag hflag htakes value rest hvalue ih =>
      obtain ⟨items, rfl, hitems, rfl⟩ := ih h
      obtain ⟨rfl, -⟩ := checkFlag_eq_ok_iff.1 hflag
      have hfits : (Item.valued flag value).Fits limits := ⟨htakes, checkValue_eq_ok_iff.1 hvalue⟩
      exact ⟨.valued flag value :: items, rfl, List.forall_mem_cons.2 ⟨hfits, hitems⟩,
        by simp [Item.isUrl]⟩
  | case6 urls word rest _ flag hflag htakes ih =>
      obtain ⟨items, rfl, hitems, rfl⟩ := ih h
      obtain ⟨rfl, hallowed⟩ := checkFlag_eq_ok_iff.1 hflag
      have hfits : (Item.switch flag).Fits limits := ⟨hallowed, by simpa using htakes⟩
      exact ⟨.switch flag :: items, rfl, List.forall_mem_cons.2 ⟨hfits, hitems⟩,
        by simp [Item.isUrl]⟩
  | case7 => cases h
  | case8 urls word rest hdash hurl ih =>
      obtain ⟨items, rfl, hitems, rfl⟩ := ih h
      have hfits : (Item.url word).Fits limits := ⟨by simpa using hdash, hurl⟩
      exact ⟨.url word :: items, rfl, List.forall_mem_cons.2 ⟨hfits, hitems⟩,
        by simp only [List.countP_cons, Item.isUrl, if_true]; omega⟩

theorem countUrls_eq_ok_iff {limits : Limits} {urls n : Nat} {words : List String} :
    countUrls limits urls words = .ok n ↔
      ∃ items : List Item, words = items.flatMap Item.words ∧
        (∀ item ∈ items, item.Fits limits) ∧ n = urls + items.countP Item.isUrl := by
  refine ⟨exists_items_of_countUrls, ?_⟩
  rintro ⟨items, rfl, hitems, rfl⟩
  exact countUrls_items hitems urls

theorem checkWords_cons_eq_ok_iff {limits : Limits} {word : String} {rest : List String}
    {argv : Argv} :
    checkWords limits (word :: rest) = .ok argv ↔
      word = Command.program ∧ countUrls limits 0 rest = .ok 1 ∧ argv = ⟨word, rest⟩ := by
  rw [checkWords]
  by_cases hw : word = Command.program
  · cases hc : countUrls limits 0 rest with
    | error v => simp [hw]
    | ok n =>
        match n with
        | 0 => simp [hw]
        | 1 => simp [hw, eq_comm]
        | n + 2 => simp [hw]
  · simp [hw]

theorem checkWords_eq_ok_iff {limits : Limits} {words : List String} {argv : Argv} :
    checkWords limits words = .ok argv ↔
      argv.toList = words ∧ ∃ items, IsCommand limits items words := by
  cases words with
  | nil =>
      have hne : argv.toList ≠ [] := List.cons_ne_nil _ _
      simp [checkWords, hne]
  | cons word rest =>
      rw [checkWords_cons_eq_ok_iff, countUrls_eq_ok_iff]
      constructor
      · rintro ⟨hw, ⟨items, hrest, hfits, hone⟩, rfl⟩
        exact ⟨rfl, items, by rw [hw, hrest], hfits, by omega⟩
      · rintro ⟨hargv, items, hspelled, hfits, hone⟩
        obtain ⟨hw, hrest⟩ := List.cons.inj hspelled
        obtain ⟨program, arguments⟩ := argv
        obtain ⟨rfl, rfl⟩ := List.cons.inj hargv
        exact ⟨hw, ⟨items, hrest, hfits, by omega⟩, rfl⟩

/-! ### The split is unique -/

/-- The first item of a list of words can be told from the words. -/
theorem Item.words_append_inj {item item' : Item} {rest rest' : List String}
    (h : item.IsShaped) (h' : item'.IsShaped) (heq : item.words ++ rest = item'.words ++ rest') :
    item = item' ∧ rest = rest' := by
  cases item <;> cases item' <;>
    grind [Item.words, Item.IsShaped, isFlagWord_spelling, Flag.spelling_injective]

theorem Item.eq_of_flatMap_words_eq {items items' : List Item} (h : ∀ item ∈ items, item.IsShaped)
    (h' : ∀ item ∈ items', item.IsShaped) (heq : items.flatMap words = items'.flatMap words) :
    items = items' := by
  induction items generalizing items' with
  | nil => cases items' with
      | nil => rfl
      | cons item items' => cases item <;> simp [Item.words] at heq
  | cons item items ih => cases items' with
      | nil => cases item <;> simp [Item.words] at heq
      | cons item' items' =>
          obtain ⟨rfl, hrest⟩ := words_append_inj (h item (.head _)) (h' item' (.head _)) heq
          rw [ih (fun i hi => h i (.tail _ hi)) (fun i hi => h' i (.tail _ hi)) hrest]

theorem IsCommand.items_unique {limits : Limits} {items items' : List Item} {words : List String}
    (h : IsCommand limits items words) (h' : IsCommand limits items' words) : items = items' := by
  have heq := h.spelled.symm.trans h'.spelled
  exact Item.eq_of_flatMap_words_eq (fun i hi => (h.fits i hi).isShaped)
    (fun i hi => (h'.fits i hi).isShaped) (List.cons.inj heq).2

/-! ### The grammar of the policy -/

/-- The policy accepts exactly the grammar: a list of words has an argument vector if and only if it
is the program and then acceptable items, one of them a URL. It splits into items in one way only,
and the argument vector is the words as they were given. -/
theorem checkWords_accepts_grammar (limits : Limits) (words : List String) :
    ((∃ argv, checkWords limits words = .ok argv) ↔ ∃ items, IsCommand limits items words) ∧
    (∀ items items', IsCommand limits items words → IsCommand limits items' words →
      items = items') ∧
    (∀ argv, checkWords limits words = .ok argv → argv.toList = words) := by
  refine ⟨⟨?_, ?_⟩, fun items items' h h' => h.items_unique h', fun argv h => ?_⟩
  · rintro ⟨argv, h⟩
    exact (checkWords_eq_ok_iff.1 h).2
  · rintro ⟨items, h⟩
    obtain ⟨rest, rfl⟩ : ∃ rest, words = Command.program :: rest := ⟨_, h.spelled⟩
    exact ⟨⟨Command.program, rest⟩, checkWords_eq_ok_iff.2 ⟨rfl, items, h⟩⟩
  · exact (checkWords_eq_ok_iff.1 h).1

end CurlWarden.Policy
