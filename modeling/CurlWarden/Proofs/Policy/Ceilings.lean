import CurlWarden.Proofs.Policy.Check

/-!
# Raising a ceiling

Lengths are looked at in three places: that of the text before it is split into words, that of a URL
after all else that may be wrong with it, and that of a header after its source. A ceiling decides
nothing but whether something is too long, and what is not too long stays so under a higher
ceiling; so an outcome that is not about a length is the outcome under higher ceilings as well.

`Keeps` says this of two outcomes. It is shown of the guard and of the checks on one item, then of
the walk over the words, by induction along the walk under the lower ceilings, and at last of the
whole judgement (`check_of_raisedTo`).
-/

namespace CurlWarden

/-- No ceiling on a length is lower than it was; the other limits may be any. -/
structure Limits.RaisedTo (limits limits' : Limits) : Prop where
  command : limits.maxCommandLength ≤ limits'.maxCommandLength
  url : limits.maxUrlLength ≤ limits'.maxUrlLength
  header : limits.maxHeaderLength ≤ limits'.maxHeaderLength

namespace Policy

/-- The reasons that say that something is too long. -/
def lengthReasons : List Reason := [.commandTooLong, .urlTooLong, .headerTooLong]

variable {limits limits' : Limits}

/-! ### Outcomes that stay the same -/

section
variable {α : Type} {before after : Except Violation α}

/-- The outcome is what it was before, unless that was that something is too long. -/
def Keeps (before after : Except Violation α) : Prop :=
  after = before ∨ ∃ v, before = .error v ∧ v.reason ∈ lengthReasons

namespace Keeps

theorem refl (outcome : Except Violation α) : Keeps outcome outcome := .inl rfl

theorem of_tooLong {v : Violation} (h : v.reason ∈ lengthReasons) : Keeps (.error v) after :=
  .inr ⟨v, rfl, h⟩

theorem eq_ok {a : α} (h : Keeps (.ok a) after) : after = .ok a := by
  obtain heq | ⟨v, hv, -⟩ := h
  · exact heq
  · cases hv

/-- What a violation at an item does to the walk, a violation that is kept does as well. -/
theorem error {v : Violation} {outcome : Except Violation Unit} (h : Keeps (.error v) outcome)
    (hafter : outcome = .error v → after = .error v) : Keeps (.error v) after := by
  obtain heq | ⟨w, hw, hlong⟩ := h
  · exact .inl (hafter heq)
  · cases hw
    exact .of_tooLong hlong

end Keeps

end

/-! ### The checks -/

theorem guardText_keeps (h : limits.RaisedTo limits') (text : String) :
    Keeps (guardText limits text) (guardText limits' text) := by
  unfold guardText
  split
  · exact .refl _
  split
  · exact .of_tooLong (by decide)
  · next hshort =>
    have hcommand := h.command
    rw [if_neg (by omega)]
    exact .refl _

theorem checkValue_keeps (h : limits.RaisedTo limits') (flag : Flag) (value : String) :
    Keeps (checkValue limits flag value) (checkValue limits' flag value) := by
  unfold checkValue
  split
  · exact .refl _
  split
  · exact .of_tooLong (by decide)
  · next hshort =>
    have hheader := h.header
    rw [if_neg]
    · exact .refl _
    · rw [Bool.and_eq_true, decide_eq_true_eq] at hshort ⊢
      exact fun hlong => hshort ⟨hlong.1, Int.lt_of_le_of_lt hheader hlong.2⟩

theorem checkUrl_keeps (h : limits.RaisedTo limits') (url : String) :
    Keeps (checkUrl limits url) (checkUrl limits' url) := by
  unfold checkUrl
  split
  · exact .refl _
  -- The length is looked at last; what comes before is the same under all limits.
  iterate 5
    split
    · exact .refl _
  split
  · exact .of_tooLong (by decide)
  · next hshort =>
    have hurl := h.url
    rw [if_neg (by omega)]
    exact .refl _

/-! ### The walk -/

theorem countUrls_keeps (h : limits.RaisedTo limits') (urls : Nat) (words : List String) :
    Keeps (countUrls limits urls words) (countUrls limits' urls words) := by
  -- What the lower ceilings find at an item, the higher ones find there too; so the walks go on
  -- together, or end together, unless the first ends at something too long.
  fun_induction countUrls limits urls words with
  | case1 urls => exact .refl _
  | case2 urls word rest hdash v hflag =>
      refine .inl ?_
      simp only [countUrls, hdash, hflag, if_true]
  | case3 urls word hdash flag hflag htakes =>
      refine .inl ?_
      simp only [countUrls, hdash, hflag, htakes, if_true]
  | case4 urls word hdash flag hflag htakes value rest v hvalue =>
      have hkeeps := checkValue_keeps h flag value
      rw [hvalue] at hkeeps
      refine hkeeps.error fun hvalue' => ?_
      simp only [countUrls, hdash, hflag, htakes, hvalue', if_true]
  | case5 urls word hdash flag hflag htakes value rest hvalue ih =>
      have hkeeps := checkValue_keeps h flag value
      rw [hvalue] at hkeeps
      simpa only [countUrls, hdash, hflag, htakes, hkeeps.eq_ok, if_true] using ih
  | case6 urls word rest hdash flag hflag htakes ih =>
      simpa only [countUrls, hdash, hflag, htakes, if_true, Bool.false_eq_true, if_false] using ih
  | case7 urls word rest hdash v hurl =>
      have hkeeps := checkUrl_keeps h word
      rw [hurl] at hkeeps
      refine hkeeps.error fun hurl' => ?_
      simp only [countUrls, hdash, hurl', Bool.false_eq_true, if_false]
  | case8 urls word rest hdash hurl ih =>
      have hkeeps := checkUrl_keeps h word
      rw [hurl] at hkeeps
      simpa only [countUrls, hdash, hkeeps.eq_ok, Bool.false_eq_true, if_false] using ih

theorem checkWords_keeps (h : limits.RaisedTo limits') (words : List String) :
    Keeps (checkWords limits words) (checkWords limits' words) := by
  cases words with
  | nil => exact .refl _
  | cons word rest =>
      rw [checkWords, checkWords]
      split
      · exact .refl _
      obtain heq | ⟨v, hcount, hlong⟩ := countUrls_keeps h 0 rest
      · rw [heq]
        exact .refl _
      · rw [hcount]
        exact .of_tooLong hlong

/-! ### The judgement -/

theorem check_keeps (h : limits.RaisedTo limits') (text : String) :
    check limits' text = check limits text ∨
      ∃ v, check limits text = .error (.violation v) ∧ v.reason ∈ lengthReasons := by
  rw [check, check]
  obtain hguard | ⟨v, hguard, hlong⟩ := guardText_keeps h text
  · rw [hguard]
    cases guardText limits text with
    | error v => exact .inl rfl
    | ok _ =>
        cases Command.words? (Text.trim text.toList) with
        | none => exact .inl rfl
        | some words =>
            obtain hwords | ⟨v, hwords, hlong⟩ := checkWords_keeps h words
            · exact .inl (congrArg (Except.mapError _) hwords)
            · exact .inr ⟨v, congrArg (Except.mapError _) hwords, hlong⟩
  · rw [hguard]
    exact .inr ⟨v, rfl, hlong⟩

/-- Under ceilings that are not lower, a text keeps its argument vector and keeps its refusal,
unless that was that something is too long; so a higher ceiling makes a difference only to what was
too long before. -/
theorem check_of_raisedTo {limits limits' : Limits} (h : limits.RaisedTo limits')
    (text : String) :
    (∀ argv, check limits text = .ok argv → check limits' text = .ok argv) ∧
    (∀ refusal, check limits text = .error refusal →
      (∀ v, refusal = .violation v → v.reason ∉ lengthReasons) →
      check limits' text = .error refusal) ∧
    (check limits' text ≠ check limits text →
      ∃ v, check limits text = .error (.violation v) ∧ v.reason ∈ lengthReasons) := by
  obtain heq | ⟨v, hcheck, hlong⟩ := check_keeps h text
  · rw [heq]
    exact ⟨fun _ h => h, fun _ h _ => h, fun hne => absurd rfl hne⟩
  · refine ⟨fun argv hok => ?_, fun refusal hrefused hother => ?_, fun _ => ⟨v, hcheck, hlong⟩⟩
    · cases hcheck.symm.trans hok
    · obtain rfl := Except.error.inj (hcheck.symm.trans hrefused)
      exact absurd hlong (hother v rfl)

/-- With four characters for a header, and then with five: a command is accepted under both, and a
flag is forbidden under both; only a header of five characters is judged differently. -/
theorem check_of_raisedTo_header :
    Limits.RaisedTo { maxHeaderLength := 4 } { maxHeaderLength := 5 } ∧
      check { maxHeaderLength := 5 } "curl -H 'A: 1' http://a" =
        .ok ⟨"curl", ["-H", "A: 1", "http://a"]⟩ ∧
      check { maxHeaderLength := 5 } "curl -H 'A: 1' -o f" =
        .error (.violation ⟨.flagNotAllowed, some "-o"⟩) ∧
      ∃ v, check { maxHeaderLength := 4 } "curl -H 'A: 12' -o f" = .error (.violation v) ∧
        v.reason ∈ lengthReasons := by
  have hraised : Limits.RaisedTo { maxHeaderLength := 4 } { maxHeaderLength := 5 } :=
    ⟨by decide, by decide, by decide⟩
  have hok : check { maxHeaderLength := 4 } "curl -H 'A: 1' http://a" =
      .ok ⟨"curl", ["-H", "A: 1", "http://a"]⟩ := by decide +kernel
  have hdenied : check { maxHeaderLength := 4 } "curl -H 'A: 1' -o f" =
      .error (.violation ⟨.flagNotAllowed, some "-o"⟩) := by decide +kernel
  have hdiffer : check { maxHeaderLength := 5 } "curl -H 'A: 12' -o f" ≠
      check { maxHeaderLength := 4 } "curl -H 'A: 12' -o f" := by decide +kernel
  refine ⟨hraised, (check_of_raisedTo hraised _).1 _ hok,
    (check_of_raisedTo hraised _).2.1 _ hdenied ?_, (check_of_raisedTo hraised _).2.2 hdiffer⟩
  rintro v ⟨⟩
  decide

end Policy

end CurlWarden
