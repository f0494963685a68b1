import CurlWarden.Proofs.Policy.Address

/-!
# What a refusal tells of a user

A URL may name a user, with a password, in front of an at sign. It is refused then, whoever the user
is, and the refusal is not supposed to tell. This module says when it does not.

* `hasScheme_of_isScheme`, `exists_isScheme_of_hasScheme`, `split?_withUser_eq_none_iff` — whether
  the URL has a scheme, and whether it can be split, does not depend on the user.
* `checkUrl_of_isRecognised` — if both hold, the user is recognised, and the refusal shows nothing
  of the URL.
* `checkUrl_of_not_isRecognised` — otherwise it shows the start of the URL, as of any malformed one.

So two users are told apart exactly where the second case shows a place in which they differ
(`checkUrl_hides_user_iff`), as it does for an open bracket after the at sign (`not_hides_user`).
-/

namespace CurlWarden

namespace Url

variable {user rest front back : List Char} {c : Char}

/-- May the character stand in the name of a user or a password? It is printable and in ASCII, and
it is no delimiter, bracket or brace. -/
def isUserChar (c : Char) : Bool :=
  0x20 ≤ c.toNat && c.toNat < 0x7F && !"/?#@[]\x7b\x7d".toList.contains c

/-- The text names a user, perhaps with a password. -/
def IsUser (user : List Char) : Prop := user ≠ [] ∧ ∀ c ∈ user, isUserChar c = true

/-- The text is empty, or it stands in front of a colon, which is its only one. -/
def IsLead (lead : List Char) : Prop := lead = [] ∨ ∃ name, ':' ∉ name ∧ lead = name ++ [':']

instance (user : List Char) : Decidable (IsUser user) :=
  decidable_of_iff (user ≠ [] ∧ user.all isUserChar = true) (by rw [IsUser, List.all_eq_true])

/-- What of the text is the authority, once the text is clean and two slashes are in front. -/
def place (rest : List Char) : List Char :=
  (rest.filter fun c => !isLineControl c).takeWhile (!endsAuthority ·)

/-! ### Users -/

theorem isUserChar_iff : isUserChar c = true ↔
    (0x20 ≤ c.toNat ∧ c.toNat < 0x7F) ∧ c ∉ "/?#@[]\x7b\x7d".toList := by
  simp [isUserChar]

theorem ne_of_isUserChar {d : Char} (h : isUserChar c = true) (hd : isUserChar d = false) :
    c ≠ d := by
  rintro rfl
  rw [h] at hd
  cases hd

theorem isLineControl_of_isUserChar (h : isUserChar c = true) : isLineControl c = false := by
  rw [isLineControl_eq_false_iff]
  exact ⟨ne_of_isUserChar h (by decide), ne_of_isUserChar h (by decide),
    ne_of_isUserChar h (by decide)⟩

theorem endsAuthority_of_isUserChar (h : isUserChar c = true) : endsAuthority c = false := by
  have hslash := ne_of_isUserChar (d := '/') h (by decide)
  have hquery := ne_of_isUserChar (d := '?') h (by decide)
  have hnumber := ne_of_isUserChar (d := '#') h (by decide)
  simp [endsAuthority, hslash, hquery, hnumber]

/-- In ASCII there are no hidden delimiters. -/
theorem hidesDelimiter_of_isUserChar (h : isUserChar c = true) : hidesDelimiter c = false := by
  have hascii : ∀ n ∈ hiddenDelimiters, 0x7F ≤ n := by decide
  have hlow := (isUserChar_iff.1 h).1.2
  apply Bool.eq_false_iff.2
  intro hhides
  have hhigh := hascii _ (List.contains_iff_mem.1 hhides)
  omega

namespace IsUser

variable (h : IsUser user)
include h

theorem not_mem (hc : isUserChar c = false) : c ∉ user :=
  fun hmem => ne_of_isUserChar (h.2 c hmem) hc rfl

theorem filter_eq : user.filter (fun c => !isLineControl c) = user :=
  List.filter_eq_self.2 fun c hc => by simp [isLineControl_of_isUserChar (h.2 c hc)]

theorem place_eq : place (user ++ '@' :: rest) = user ++ '@' :: place rest := by
  have hpos : ∀ c ∈ user, (!endsAuthority c) = true := fun c hc => by
    simp [endsAuthority_of_isUserChar (h.2 c hc)]
  rw [place, List.filter_append, h.filter_eq, List.takeWhile_append_of_pos hpos]
  rfl

/-- The authority of a reference that names a user starts with the user. -/
theorem splitAuthority_eq : (splitAuthority ("//".toList ++
    (user ++ '@' :: rest.filter fun c => !isLineControl c))).1 = user ++ '@' :: place rest := by
  rw [← h.place_eq, place, List.filter_append, h.filter_eq]
  rfl

/-- The brackets of an authority are checked without its user. -/
theorem bracketsValid_eq (host : List Char) :
    bracketsValid (user ++ '@' :: host) = bracketsValid host := by
  have hhost : hostPort (user ++ '@' :: host) = hostPort host := Text.afterLast_append_cons ..
  have hcontains : ∀ c, isUserChar c = false → c ≠ '@' →
      (user ++ '@' :: host).contains c = host.contains c := by
    intro c hc hat
    simp [h.not_mem hc, hat]
  rw [bracketsValid, bracketsValid, hostOf, hostOf, hhost,
    hcontains '[' (by decide) (by decide), hcontains ']' (by decide) (by decide)]

theorem normalisesSafely_eq (host : List Char) :
    normalisesSafely (user ++ '@' :: host) = normalisesSafely host := by
  have hnone : user.any hidesDelimiter = false := by
    rw [List.any_eq_false]
    intro c hc
    simp [hidesDelimiter_of_isUserChar (h.2 c hc)]
  have hat : hidesDelimiter '@' = false := by decide
  simp [normalisesSafely, hnone, hat]

end IsUser

/-! ### The clean text -/

/-- Nothing is dropped from the front once there is a character that is no control and no space. -/
theorem clean_append_cons (front : List Char) (h : 0x20 < c.toNat) :
    clean (front ++ c :: back) =
      clean front ++ (c :: back).filter fun c => !isLineControl c := by
  have hkept : decide (c.toNat ≤ 0x20) = false := by simpa using h
  rw [clean, clean, Text.dropWhile_append_cons hkept, List.filter_append]

theorem not_mem_clean (h : c ∉ front) : c ∉ clean front :=
  fun hmem => h ((List.dropWhile_suffix _).subset (List.mem_filter.1 hmem).1)

theorem clean_slashes :
    clean (front ++ "//".toList ++ rest) =
      clean front ++ ("//".toList ++ rest.filter fun c => !isLineControl c) := by
  rw [List.append_assoc]
  exact clean_append_cons (c := '/') front (by decide)

/-- A reference that starts with two slashes has no scheme. -/
theorem not_hasScheme_slashes {scheme below : List Char} :
    ¬ HasScheme ("//".toList ++ rest) scheme below := by
  rintro ⟨htext, ⟨first, hfirst, halpha⟩, -⟩
  obtain ⟨more, rfl⟩ := List.head?_eq_some_iff.1 hfirst
  obtain rfl : '/' = first := (List.cons.inj htext).1
  exact absurd halpha (by decide)

/-- A reference can be split if its authority can. -/
theorem split?_eq_none_iff {authority : List Char}
    (h : (splitAuthority (splitScheme (clean front)).2).1 = authority) :
    Parts.split? front = none ↔
      (bracketsValid authority && normalisesSafely authority) = false := by
  have hparts : splitAuthority (splitScheme (clean front)).2 =
      (authority, (splitAuthority (splitScheme (clean front)).2).2) := by rw [← h]
  obtain ⟨path, query, fragment, heq, -⟩ := exists_split?_eq hparts
  rw [heq]
  cases bracketsValid authority && normalisesSafely authority with
  | true => simp
  | false => simp

theorem split?_slashes_eq_none_iff : Parts.split? ("//".toList ++ rest) = none ↔
    (bracketsValid (place rest) && normalisesSafely (place rest)) = false := by
  apply split?_eq_none_iff
  have hclean : clean ("//".toList ++ rest) =
      "//".toList ++ rest.filter fun c => !isLineControl c :=
    clean_append_cons (c := '/') [] (by decide)
  rcases hasScheme_or_splitScheme_eq (clean ("//".toList ++ rest)) with ⟨scheme, below, h⟩ | hnone
  · rw [hclean] at h
    exact absurd h not_hasScheme_slashes
  · rw [hnone, hclean]
    rfl

end Url

/-! ### What a violation tells -/

namespace Violation

variable {v w : Violation}

/-- The message tells all of the detail. -/
theorem eq_of_message (hreason : v.reason = w.reason) (h : v.message = w.message) : v = w := by
  obtain ⟨reason, detail⟩ := v
  obtain ⟨reason', detail'⟩ := w
  obtain rfl : reason = reason' := hreason
  cases detail with
  | none =>
      cases detail' with
      | none => rfl
      | some detail' => simp [message, String.ext_iff] at h
  | some detail =>
      cases detail' with
      | none => simp [message, String.ext_iff] at h
      | some detail' =>
          have hdetail : detail = detail' := by simpa [message, String.ext_iff] using h
          rw [hdetail]

/-- So does the record, but for an empty one. -/
theorem eq_of_record (hreason : v.reason = w.reason) (hv : v.detail ≠ some "")
    (hw : w.detail ≠ some "") (h : v.record = w.record) : v = w := by
  obtain ⟨reason, detail⟩ := v
  obtain ⟨reason', detail'⟩ := w
  obtain rfl : reason = reason' := hreason
  have hmessage := congrArg Log.Record.message h
  cases detail with
  | none =>
      cases detail' with
      | none => rfl
      | some detail' =>
          have hne : detail' ≠ "" := fun heq => hw (congrArg some heq)
          simp [record, String.ext_iff, hne] at hmessage
  | some detail =>
      have hne : detail ≠ "" := fun heq => hv (congrArg some heq)
      cases detail' with
      | none => simp [record, String.ext_iff, hne] at hmessage
      | some detail' =>
          have hne' : detail' ≠ "" := fun heq => hw (congrArg some heq)
          have hdetail : detail = detail' := by
            simpa [record, String.ext_iff, hne, hne'] using hmessage
          rw [hdetail]

end Violation

namespace Policy

open Url

variable {lead user rest : List Char} {limits : Limits}

/-- A URL that names a user. -/
def withUser (lead user rest : List Char) : String :=
  String.ofList (lead ++ "//".toList ++ (user ++ '@' :: rest))

/-- The user can be seen: a scheme stands in front, and what follows the at sign can be split. -/
structure IsRecognised (lead rest : List Char) : Prop where
  scheme : ∃ name, lead = name ++ [':'] ∧ IsScheme (clean name)
  split : Parts.split? ("//".toList ++ rest) ≠ none

/-! ### What is checked of the user -/

theorem clean_withUser (huser : IsUser user) :
    clean (withUser lead user rest).toList = clean lead ++
      ("//".toList ++ (user ++ '@' :: rest.filter fun c => !isLineControl c)) := by
  rw [withUser, String.toList_ofList, clean_slashes, List.filter_append, huser.filter_eq]
  rfl

/-- The scheme of the URL is what stands in front of its colon. -/
theorem hasScheme_of_isScheme {name : List Char} (h : IsScheme (clean name)) (huser : IsUser user) :
    HasScheme (clean (withUser (name ++ [':']) user rest).toList) (clean name)
      ("//".toList ++ (user ++ '@' :: rest.filter fun c => !isLineControl c)) := by
  refine ⟨?_, h⟩
  rw [clean_withUser huser, clean_append_cons name (by decide), List.append_assoc]
  rfl

theorem exists_isScheme_of_hasScheme {scheme below : List Char} (hlead : IsLead lead)
    (huser : IsUser user) (h : HasScheme (clean (withUser lead user rest).toList) scheme below) :
    ∃ name, lead = name ++ [':'] ∧ IsScheme (clean name) := by
  rw [clean_withUser huser] at h
  rcases hlead with rfl | ⟨name, hname, rfl⟩
  · exact absurd h not_hasScheme_slashes
  · refine ⟨name, rfl, ?_⟩
    rw [clean_append_cons name (by decide), List.append_assoc] at h
    -- The first colon of the clean text stands where the name ends, and where the scheme ends.
    have hcolon : ':' ∉ scheme := fun hmem => absurd (h.scheme.2 _ hmem) (by decide)
    have hfirst := congrArg (Text.splitAtFirst ':') h.text
    rw [Text.splitAtFirst_append hcolon] at hfirst
    have hscheme : clean name = scheme :=
      congrArg Prod.fst ((Text.splitAtFirst_append (not_mem_clean hname)).symm.trans hfirst)
    rw [hscheme]
    exact h.scheme

/-- Whether the URL can be split does not depend on the user. -/
theorem split?_withUser_eq_none_iff {name : List Char} (h : IsScheme (clean name))
    (huser : IsUser user) : Parts.split? (withUser (name ++ [':']) user rest).toList = none ↔
      Parts.split? ("//".toList ++ rest) = none := by
  have hauthority : (splitAuthority (splitScheme
      (clean (withUser (name ++ [':']) user rest).toList)).2).1 = user ++ '@' :: place rest := by
    rw [splitScheme_of_hasScheme (hasScheme_of_isScheme h huser), huser.splitAuthority_eq]
  rw [split?_eq_none_iff hauthority, split?_slashes_eq_none_iff, huser.bracketsValid_eq,
    huser.normalisesSafely_eq]

/-- A user that is recognised is the reason for the refusal, or else the scheme is; either way the
refusal shows nothing of the URL. -/
theorem checkUrl_of_isRecognised (h : IsRecognised lead rest) (limits : Limits) :
    ∃ reason ∈ [Reason.unsupportedScheme, Reason.urlCredentials], ∀ user, IsUser user →
      checkUrl limits (withUser lead user rest) = .error ⟨reason, none⟩ := by
  obtain ⟨⟨name, rfl, hscheme⟩, hsplit⟩ := h
  have hdescribes : ∀ user, IsUser user → ∃ parts tail,
      Describes (withUser (name ++ [':']) user rest) parts (clean name)
        ("//".toList ++ (user ++ '@' :: rest.filter fun c => !isLineControl c)) tail :=
    fun user huser => exists_describes_of_hasScheme (hasScheme_of_isScheme hscheme huser)
      (mt (split?_withUser_eq_none_iff hscheme huser).1 hsplit)
  by_cases hforeign : (clean name).map Char.toLower ≠ "http".toList ∧
      (clean name).map Char.toLower ≠ "https".toList
  · refine ⟨.unsupportedScheme, by decide, fun user huser => ?_⟩
    obtain ⟨parts, tail, hparts⟩ := hdescribes user huser
    rw [hparts.checkUrl_eq, if_pos (hparts.foreign_iff.2 hforeign)]
    rfl
  · refine ⟨.urlCredentials, by decide, fun user huser => ?_⟩
    obtain ⟨parts, tail, hparts⟩ := hdescribes user huser
    have hat : '@' ∈ parts.authority := by
      have hauthority : parts.authority = user ++ '@' :: place rest := by
        rw [← huser.splitAuthority_eq, hparts.authority]
      rw [hauthority]
      simp
    rw [hparts.checkUrl_eq, if_neg (mt hparts.foreign_iff.1 hforeign),
      if_pos (hparts.credentials_iff.2 hat)]
    rfl

/-- A user that is not recognised is shown, as part of a URL that is malformed. -/
theorem checkUrl_of_not_isRecognised (h : ¬ IsRecognised lead rest) (hlead : IsLead lead)
    (huser : IsUser user) (limits : Limits) : checkUrl limits (withUser lead user rest) =
      .error (malformedUrl (withUser lead user rest)) := by
  apply checkUrl_of_malformed
  by_cases hscheme : ∃ scheme below,
      HasScheme (clean (withUser lead user rest).toList) scheme below
  · obtain ⟨scheme, below, hscheme⟩ := hscheme
    obtain ⟨name, rfl, hname⟩ := exists_isScheme_of_hasScheme hlead huser hscheme
    left
    rw [split?_withUser_eq_none_iff hname huser]
    by_contra hsplit
    exact h ⟨⟨name, rfl, hname⟩, hsplit⟩
  · exact .inr hscheme

theorem detail_malformedUrl_ne : (malformedUrl (withUser lead user rest)).detail ≠ some "" := by
  intro h
  have hempty : (withUser lead user rest).toList.take shownLength = [] := by
    simpa [malformedUrl] using h
  rcases List.take_eq_nil_iff.1 hempty with hzero | hnil
  · cases hzero
  · simp [withUser] at hnil

/-- A URL that names a user is refused, and what the refusal tells is the same for two users exactly
if the policy recognises them, or if they are cut off from what it shows. -/
theorem checkUrl_hides_user_iff {user₁ user₂ : List Char} (limits : Limits) (hlead : IsLead lead)
    (huser₁ : IsUser user₁) (huser₂ : IsUser user₂) : ∃ v₁ v₂,
      checkUrl limits (withUser lead user₁ rest) = .error v₁ ∧
      checkUrl limits (withUser lead user₂ rest) = .error v₂ ∧ v₁.reason = v₂.reason ∧
      (v₁ = v₂ ↔ IsRecognised lead rest ∨ (withUser lead user₁ rest).toList.take shownLength =
        (withUser lead user₂ rest).toList.take shownLength) ∧
      (v₁.message = v₂.message ↔ v₁ = v₂) ∧ (v₁.record = v₂.record ↔ v₁ = v₂) ∧
      (IsRecognised lead rest → v₁.detail = none) := by
  by_cases h : IsRecognised lead rest
  · obtain ⟨reason, -, hreason⟩ := checkUrl_of_isRecognised h limits
    refine ⟨_, _, hreason user₁ huser₁, hreason user₂ huser₂, rfl, ?_, ?_, ?_, fun _ => rfl⟩
    · exact ⟨fun _ => .inl h, fun _ => rfl⟩
    · exact ⟨fun _ => rfl, fun _ => rfl⟩
    · exact ⟨fun _ => rfl, fun _ => rfl⟩
  · refine ⟨_, _, checkUrl_of_not_isRecognised h hlead huser₁ limits,
      checkUrl_of_not_isRecognised h hlead huser₂ limits, rfl, ?_, ?_, ?_, fun h' => absurd h' h⟩
    · simp [malformedUrl, h, String.ofList_inj]
    · exact ⟨Violation.eq_of_message rfl, congrArg _⟩
    · exact ⟨Violation.eq_of_record rfl detail_malformedUrl_ne detail_malformedUrl_ne, congrArg _⟩

/-- A password is not told from none. -/
theorem checkUrl_hides_user_http :
    IsLead "http:".toList ∧ IsUser "a:b".toList ∧ IsUser "c".toList ∧
    IsRecognised "http:".toList "h".toList ∧ ∃ v,
      checkUrl {} (withUser "http:".toList "a:b".toList "h".toList) = .error v ∧
      checkUrl {} (withUser "http:".toList "c".toList "h".toList) = .error v ∧
      v.detail = none := by
  have hlead : IsLead "http:".toList := .inr ⟨"http".toList, by decide, rfl⟩
  have huser : IsUser "a:b".toList := by decide
  have huser' : IsUser "c".toList := by decide
  have hseen : IsRecognised "http:".toList "h".toList :=
    ⟨⟨"http".toList, rfl, ⟨'h', rfl, by decide⟩, List.all_eq_true.1 (by decide)⟩, by decide⟩
  obtain ⟨v, w, hv, hw, -, hsame, -, -, hdetail⟩ := checkUrl_hides_user_iff {} hlead huser huser'
  rw [← hsame.2 (.inl hseen)] at hw
  exact ⟨hlead, huser, huser', hseen, v, hv, hw, hdetail hseen⟩

/-- With an open bracket after the at sign, the password is shown. -/
theorem not_hides_user : ¬ ∀ (limits : Limits) (lead rest user₁ user₂ : List Char),
    IsLead lead → IsUser user₁ → IsUser user₂ → ∃ v,
      checkUrl limits (withUser lead user₁ rest) = .error v ∧
      checkUrl limits (withUser lead user₂ rest) = .error v := by
  intro h
  have hlead : IsLead "http:".toList := .inr ⟨"http".toList, by decide, rfl⟩
  obtain ⟨v, hv, hw⟩ := h {} "http:".toList "[".toList "a:b".toList "c".toList hlead
    (by decide) (by decide)
  have hshown : checkUrl {} (withUser "http:".toList "a:b".toList "[".toList) =
      .error ⟨.invalidUrl, some "http://a:b@["⟩ := by decide
  have hshown' : checkUrl {} (withUser "http:".toList "c".toList "[".toList) =
      .error ⟨.invalidUrl, some "http://c@["⟩ := by decide
  have hv' := Except.error.inj (hshown.symm.trans hv)
  have hw' := Except.error.inj (hshown'.symm.trans hw)
  rw [← hw'] at hv'
  exact absurd hv' (by decide)

end Policy

end CurlWarden
