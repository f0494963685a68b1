import CurlWarden.Proofs.Policy.Grammar

/-!
# What the policy sees of a value

The walk looks at the value of a flag in two ways only: would the flag read a file for it, and is a
header too long. Values that agree on these two questions (`LooksAlike`) are the same to the policy.

`DifferInValues` relates two lists of words that are the same except for such values, at places
where the walk takes a value. The walk may stop early, at a word that it objects to, so a place
counts only if the words before it lead the walk there (`AwaitsValue`). The main statement is
`judgement_eq`: two such lists are refused for the same violation, or accepted alike. It is proved
from the front of the lists to their end, one place at a time; the words in front of a place are
those of the first list, so that what leads the walk there is never changed.
-/

namespace CurlWarden.Policy

/-- Having read these words, the walk takes the next one as the value of the flag. -/
def AwaitsValue (limits : Limits) (before : List String) (flag : Flag) : Prop :=
  flag.takesValue = true ∧ ∃ items : List Item, (∀ item ∈ items, item.Fits limits) ∧
    before = Command.program :: (items.flatMap Item.words ++ [flag.spelling])

/-- The policy cannot tell the values apart. -/
structure LooksAlike (limits : Limits) (flag : Flag) (value value' : String) : Prop where
  file : flag.readsFile value = flag.readsFile value'
  header : flag.carriesHeader = true →
    (limits.maxHeaderLength < value.length ↔ limits.maxHeaderLength < value'.length)

/-- The words are the same, except for values that look alike. -/
structure DifferInValues (limits : Limits) (words words' : List String) : Prop where
  length_eq : words.length = words'.length
  values : ∀ place value value', words[place]? = some value → words'[place]? = some value' →
    value ≠ value' →
      ∃ flag, AwaitsValue limits (words.take place) flag ∧ LooksAlike limits flag value value'

/-- What the policy makes of words, without the arguments themselves: the violation, or the program
and how many arguments it gets. -/
def judgement (limits : Limits) (words : List String) : Except Violation (String × Nat) :=
  (checkWords limits words).map fun argv => (argv.program, argv.arguments.length)

/-! ### One value for another -/

section
variable {limits : Limits} {flag : Flag} {value value' : String}

theorem checkValue_congr (h : LooksAlike limits flag value value') :
    checkValue limits flag value = checkValue limits flag value' := by
  rw [checkValue, checkValue, h.file]
  cases hheader : flag.carriesHeader with
  | false => simp only [Bool.false_and]
  | true => simp only [Bool.true_and, h.header hheader]

/-- The walk passes over acceptable items, whatever follows them. -/
theorem countUrls_items_append {items : List Item} (h : ∀ item ∈ items, item.Fits limits)
    (urls : Nat) (rest : List String) :
    countUrls limits urls (items.flatMap Item.words ++ rest) =
      countUrls limits (urls + items.countP Item.isUrl) rest := by
  induction items generalizing urls with
  | nil => rfl
  | cons item items ih =>
      have htail : ∀ i ∈ items, i.Fits limits := fun i hi => h i (.tail _ hi)
      rw [List.flatMap_cons, List.append_assoc, countUrls_item (h item (.head _)), ih htail,
        ← List.singleton_append (l := items), List.countP_append, Nat.add_assoc]

/-- At a flag that takes a value, the walk depends on the value by its check only. -/
theorem countUrls_valued (h : flag.takesValue = true) (urls : Nat) (rest : List String) :
    countUrls limits urls (flag.spelling :: value :: rest) =
      match checkValue limits flag value with
      | .error v => .error v
      | .ok () => countUrls limits urls rest := by
  have hflag : checkFlag flag.spelling = .ok flag :=
    checkFlag_eq_ok_iff.2 ⟨rfl, Flag.isAllowed_of_takesValue h⟩
  rw [countUrls]
  cases hvalue : checkValue limits flag value with
  | error v => simp only [isFlagWord_spelling, hflag, h, hvalue, if_true]
  | ok _ => simp only [isFlagWord_spelling, hflag, h, hvalue, if_true]

theorem judgement_cons (rest : List String) :
    judgement limits (Command.program :: rest) =
      match countUrls limits 0 rest with
      | .error v => .error v
      | .ok 0 => .error ⟨.missingUrl, none⟩
      | .ok 1 => .ok (Command.program, rest.length)
      | .ok _ => .error ⟨.multipleUrls, none⟩ := by
  rw [judgement, checkWords, if_neg (not_not_intro rfl)]
  -- None, one, or more URLs.
  rcases countUrls limits 0 rest with v | _ | _ | n
  · rfl
  · rfl
  · rfl
  · rfl

/-- A value may be replaced by one that looks alike. -/
theorem judgement_replace {before : List String} (hbefore : AwaitsValue limits before flag)
    (h : LooksAlike limits flag value value') (rest : List String) :
    judgement limits (before ++ value :: rest) = judgement limits (before ++ value' :: rest) := by
  obtain ⟨htakes, items, hitems, rfl⟩ := hbefore
  have hwalk : ∀ v, countUrls limits 0 (items.flatMap Item.words ++ [flag.spelling] ++ v :: rest) =
      match checkValue limits flag v with
      | .error violation => .error violation
      | .ok () => countUrls limits (0 + items.countP Item.isUrl) rest := by
    intro v
    rw [List.append_assoc, countUrls_items_append hitems]
    exact countUrls_valued htakes _ _
  rw [List.cons_append, judgement_cons, List.cons_append, judgement_cons, hwalk, hwalk,
    checkValue_congr h]
  simp only [List.length_append, List.length_cons]

end

/-! ### All the values -/

section
variable {limits : Limits} {words words' : List String}

theorem judgement_eq_error_iff {violation : Violation} :
    judgement limits words = .error violation ↔ checkWords limits words = .error violation := by
  rw [judgement]
  cases checkWords limits words with
  | error v => rw [Except.map, Except.error.injEq, Except.error.injEq]
  | ok argv => exact ⟨nofun, nofun⟩

theorem judgement_eq_ok_iff {program : String} {n : Nat} :
    judgement limits words = .ok (program, n) ↔ ∃ argv, checkWords limits words = .ok argv ∧
      argv.program = program ∧ argv.arguments.length = n := by
  rw [judgement]
  cases checkWords limits words with
  | error v => exact ⟨nofun, nofun⟩
  | ok argv => simp only [Except.map, Except.ok.injEq, Prod.mk.injEq, exists_eq_left']

/-- What remains of two lists after words that they share differs in values, seen from the words
before it. -/
theorem judgement_append_eq (before : List String) (hlength : words.length = words'.length)
    (h : ∀ place value value', words[place]? = some value → words'[place]? = some value' →
      value ≠ value' → ∃ flag, AwaitsValue limits (before ++ words.take place) flag ∧
        LooksAlike limits flag value value') :
    judgement limits (before ++ words) = judgement limits (before ++ words') := by
  induction words generalizing before words' with
  | nil =>
      obtain rfl := List.eq_nil_of_length_eq_zero hlength.symm
      rfl
  | cons value words ih =>
      obtain ⟨value', words', rfl⟩ := List.exists_cons_of_length_eq_add_one hlength.symm
      -- First the later places, whose words before them include `value`; then this one.
      have hlater : judgement limits (before ++ value :: words) =
          judgement limits (before ++ value :: words') := by
        rw [List.append_cons before value words, List.append_cons before value words']
        apply ih _ (Nat.succ.inj hlength)
        intro place v v' hv hv' hne
        obtain ⟨flag, hbefore, halike⟩ := h (place + 1) v v' hv hv' hne
        rw [List.take_succ_cons, List.append_cons] at hbefore
        exact ⟨flag, hbefore, halike⟩
      rw [hlater]
      by_cases heq : value = value'
      · rw [heq]
      · obtain ⟨flag, hbefore, halike⟩ := h 0 value value' rfl rfl heq
        rw [List.take_zero, List.append_nil] at hbefore
        exact judgement_replace hbefore halike words'

/-- Words that differ in values that look alike are judged alike. -/
theorem judgement_eq (h : DifferInValues limits words words') :
    judgement limits words = judgement limits words' :=
  judgement_append_eq [] h.length_eq h.values

/-- If words are accepted, so are words that differ in values, with the same program and as many
arguments; and otherwise both are refused for the same violation. -/
theorem checkWords_of_differInValues (h : DifferInValues limits words words') :
    (∃ violation, checkWords limits words = .error violation ∧
      checkWords limits words' = .error violation) ∨
    ∃ argv argv', checkWords limits words = .ok argv ∧ checkWords limits words' = .ok argv' ∧
      argv.program = argv'.program ∧ argv.arguments.length = argv'.arguments.length := by
  cases hwords : checkWords limits words with
  | error violation =>
      have hjudged := judgement_eq_error_iff.2 hwords
      rw [judgement_eq h] at hjudged
      exact .inl ⟨violation, rfl, judgement_eq_error_iff.1 hjudged⟩
  | ok argv =>
      have hjudged := judgement_eq_ok_iff.2 ⟨argv, hwords, rfl, rfl⟩
      rw [judgement_eq h] at hjudged
      obtain ⟨argv', hwords', hprogram, harguments⟩ := judgement_eq_ok_iff.1 hjudged
      exact .inr ⟨argv, argv', rfl, hwords', hprogram.symm, harguments.symm⟩

end

end CurlWarden.Policy
