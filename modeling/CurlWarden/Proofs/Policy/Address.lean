import CurlWarden.Policy.Address
import CurlWarden.Proofs.Url.Reference

/-!
# Which addresses are acceptable

The policy checks the parts of a URL, one after the other. This module says what the checks come to
for its text: the clean text is an address on the web (`IsWebAddress`), or it has a *flaw*, and the
flaw that comes first is the one that is reported (`Flaw.IsFirst`).

* `Describes` — the parts of a text that has a scheme and can be split, and where they stand in it.
  Every check on the parts is read off the text through `Describes.exists_written_iff`.
* `checkUrl_of_isFirst`, `checkUrl_of_flawless` — the checks find the flaws in their order, and
  nothing else.
* `checkUrl_accepts_web_addresses` — the two together, with what follows for braces and brackets.
-/

namespace CurlWarden

namespace Url

variable {cs : List Char}

/-- Cleaning a text drops no character but controls and spaces. -/
theorem count_clean {c : Char} (h : 0x20 < c.toNat) : (clean cs).count c = cs.count c := by
  have hkept : (!isLineControl c) = true := by
    have hne : c ≠ '\t' ∧ c ≠ '\n' ∧ c ≠ '\r' :=
      ⟨fun heq => absurd h (heq ▸ by decide), fun heq => absurd h (heq ▸ by decide),
        fun heq => absurd h (heq ▸ by decide)⟩
    simp [isLineControl_eq_false_iff.2 hne]
  rw [clean, List.count_filter (p := fun c => !isLineControl c) hkept]
  induction cs with
  | nil => rfl
  | cons d cs ih =>
      by_cases hd : d.toNat ≤ 0x20
      · have hne : d ≠ c := fun heq => by subst heq; omega
        rw [List.dropWhile_cons_of_pos (by simpa using hd), ih, List.count_cons_of_ne hne]
      · rw [List.dropWhile_cons_of_neg (by simpa using hd)]

theorem mem_clean {c : Char} (h : 0x20 < c.toNat) : c ∈ clean cs ↔ c ∈ cs := by
  rw [← List.count_pos_iff, ← List.count_pos_iff, count_clean h]

end Url

namespace Policy

open Url

variable {limits : Limits} {url : String} {cs scheme rest authority tail : List Char}

/-! ### Addresses and flaws -/

/-- The text is the address of something on the web. -/
structure IsWebAddress (cs scheme authority tail : List Char) : Prop where
  written : IsWritten cs scheme authority tail
  scheme : scheme.map Char.toLower = "http".toList ∨ scheme.map Char.toLower = "https".toList
  normal : normalisesSafely authority = true
  plain : ∀ c ∈ authority, c ≠ '@' ∧ c ≠ '\x7b' ∧ c ≠ '\x7d'
  /-- A host without brackets ends at the first colon, and there is one; in brackets it is an
  address. -/
  host : IsBracketless authority ∧ authority.takeWhile (· != ':') ≠ [] ∨ IsBracketed authority
  single : IsBracketless tail ∧ '\x7b' ∉ tail ∧ '\x7d' ∉ tail

/-- What may be wrong with a URL. -/
inductive Flaw where
  | malformed
  | foreign
  | credentials
  | hostless
  | pattern
  | long
  deriving DecidableEq, Repr

namespace Flaw

/-- Every flaw, in the order in which they are looked for. -/
def all : List Flaw := [.malformed, .foreign, .credentials, .hostless, .pattern, .long]

/-- Does the URL have the flaw? All but the length is said of the clean text. -/
def Applies (limits : Limits) (url : String) : Flaw → Prop
  | .malformed => Parts.split? url.toList = none ∨
      ¬ ∃ scheme rest, HasScheme (clean url.toList) scheme rest
  | .foreign => ∃ scheme rest, HasScheme (clean url.toList) scheme rest ∧
      scheme.map Char.toLower ≠ "http".toList ∧ scheme.map Char.toLower ≠ "https".toList
  | .credentials => ∃ scheme authority tail, IsScheme scheme ∧
      IsWritten (clean url.toList) scheme authority tail ∧ '@' ∈ authority
  | .hostless => ¬ ∃ scheme authority tail, IsScheme scheme ∧
      IsWritten (clean url.toList) scheme authority tail ∧ authority.takeWhile (· != ':') ≠ []
  | .pattern => '\x7b' ∈ url.toList ∨ '\x7d' ∈ url.toList ∨
      ¬ IsBracketless url.toList ∧ ¬ ∃ scheme authority tail, IsScheme scheme ∧
        IsWritten (clean url.toList) scheme authority tail ∧ IsBracketed authority ∧
        IsBracketless tail
  | .long => limits.maxUrlLength < url.length

/-- How the flaw is reported. -/
def violation (url : String) : Flaw → Violation
  | .malformed | .hostless | .pattern => malformedUrl url
  | .foreign => ⟨.unsupportedScheme, none⟩
  | .credentials => ⟨.urlCredentials, none⟩
  | .long => ⟨.urlTooLong, none⟩

/-- The URL has the flaw, and none of those that are looked for before it. -/
def IsFirst (limits : Limits) (url : String) (flaw : Flaw) : Prop :=
  flaw.Applies limits url ∧ ∀ earlier ∈ all.takeWhile (· ≠ flaw), ¬ earlier.Applies limits url

theorem mem_all (flaw : Flaw) : flaw ∈ all := by cases flaw <;> decide

/-- Of the flaws that a URL has, one comes first. -/
theorem exists_isFirst {flaw : Flaw} (h : flaw.Applies limits url) :
    ∃ first, IsFirst limits url first := by
  suffices hfirst : ∀ flaws : List Flaw, flaw ∈ flaws → ∃ first, first.Applies limits url ∧
      ∀ earlier ∈ flaws.takeWhile (· ≠ first), ¬ earlier.Applies limits url from
    hfirst all flaw.mem_all
  -- By induction on the flaws that are still to be looked for.
  intro flaws hmem
  induction flaws with
  | nil => cases hmem
  | cons head flaws ih =>
      by_cases hhead : head.Applies limits url
      · exact ⟨head, hhead, by simp⟩
      · have hrest : flaw ∈ flaws := (List.mem_cons.1 hmem).resolve_left fun heq => hhead (heq ▸ h)
        obtain ⟨first, hfirst, hearlier⟩ := ih hrest
        have hne : head ≠ first := fun heq => hhead (heq ▸ hfirst)
        refine ⟨first, hfirst, ?_⟩
        rw [List.takeWhile_cons_of_pos (by simpa using hne)]
        exact List.forall_mem_cons.2 ⟨hhead, hearlier⟩

end Flaw

/-! ### The parts of a text -/

/-- The parts of a URL, with the scheme as it is written and all that follows the authority. -/
structure Describes (url : String) (parts : Parts) (scheme rest tail : List Char) : Prop where
  split : Parts.split? url.toList = some parts
  hasScheme : HasScheme (clean url.toList) scheme rest
  lower : parts.scheme = scheme.map Char.toLower
  authority : splitAuthority rest = (parts.authority, tail)
  brackets : bracketsValid parts.authority = true
  normal : normalisesSafely parts.authority = true
  any_tail : ∀ p : Char → Bool, p '?' = false → p '#' = false →
    (parts.path ++ parts.query ++ parts.fragment).any p = tail.any p

/-- A text with a scheme has parts, unless its authority keeps it from being split. -/
theorem exists_describes_of_hasScheme (h : HasScheme (clean url.toList) scheme rest)
    (hsplit : Parts.split? url.toList ≠ none) :
    ∃ parts tail, Describes url parts scheme rest tail := by
  have hrest := splitScheme_of_hasScheme h
  obtain ⟨authority, tail, hauthority⟩ :
      ∃ authority tail, splitAuthority rest = (authority, tail) := ⟨_, _, rfl⟩
  have hparts : splitAuthority (splitScheme (clean url.toList)).2 = (authority, tail) := by
    rw [hrest, hauthority]
  obtain ⟨path, query, fragment, heq, hany⟩ := exists_split?_eq hparts
  rw [hrest] at heq
  by_cases hvalid : (bracketsValid authority && normalisesSafely authority) = true
  · rw [if_pos hvalid] at heq
    rw [Bool.and_eq_true] at hvalid
    exact ⟨_, tail, heq, h, rfl, hauthority, hvalid.1, hvalid.2, hany⟩
  · rw [if_neg hvalid] at heq
    exact absurd heq hsplit

theorem exists_describes (h : ¬ Flaw.malformed.Applies limits url) :
    ∃ parts scheme rest tail, Describes url parts scheme rest tail := by
  obtain ⟨hsplit, hscheme⟩ := not_or.1 h
  obtain ⟨scheme, rest, hscheme⟩ := not_not.1 hscheme
  obtain ⟨parts, tail, hparts⟩ := exists_describes_of_hasScheme hscheme hsplit
  exact ⟨parts, scheme, rest, tail, hparts⟩

namespace Describes

variable {parts : Parts} (h : Describes url parts scheme rest tail)
include h

/-- The parts are written as the text is, or there is no authority at all. -/
theorem isWritten_or_bare :
    IsWritten (clean url.toList) scheme parts.authority tail ∨
      parts.authority = [] ∧ tail = rest := by
  rcases exists_written_or_splitAuthority_eq rest with
    ⟨authority, tail', hrest, hstop, hhead⟩ | hnone
  · have hsplit := splitAuthority_of_endsAuthority hstop hhead
    rw [← hrest, h.authority] at hsplit
    obtain ⟨rfl, rfl⟩ := Prod.mk.inj hsplit
    refine .inl ⟨?_, hstop, hhead⟩
    rw [h.hasScheme.text, hrest]
    simp
  · exact .inr (Prod.mk.inj (h.authority.symm.trans hnone))

/-- What is said of a text that is written with an authority is said of its parts, as long as it
asks for an authority that is not empty. -/
theorem exists_written_iff {P : List Char → List Char → List Char → Prop}
    (hP : ∀ scheme tail, ¬ P scheme [] tail) :
    (∃ scheme authority tail, IsScheme scheme ∧
      IsWritten (clean url.toList) scheme authority tail ∧ P scheme authority tail) ↔
    P scheme parts.authority tail := by
  constructor
  · rintro ⟨scheme', authority', tail', hscheme, hwritten, hholds⟩
    -- A text is written in one way only, the way it is split.
    obtain ⟨rfl, hauthority⟩ := hwritten.splitAuthority_eq hscheme h.hasScheme
    obtain ⟨rfl, rfl⟩ := Prod.mk.inj (hauthority.symm.trans h.authority)
    exact hholds
  · intro hholds
    rcases h.isWritten_or_bare with hwritten | ⟨hempty, -⟩
    · exact ⟨scheme, parts.authority, tail, h.hasScheme.scheme, hwritten, hholds⟩
    · rw [hempty] at hholds
      exact absurd hholds (hP _ _)

/-- A character that is no part of a scheme and no slash stands in the authority or after it. -/
theorem mem_iff {c : Char} (hc : isSchemeChar c = false) (hcolon : c ≠ ':') (hslash : c ≠ '/') :
    c ∈ clean url.toList ↔ c ∈ parts.authority ∨ c ∈ tail := by
  have hscheme : c ∉ scheme := fun hmem => by
    rw [h.hasScheme.scheme.2 c hmem] at hc
    cases hc
  rcases h.isWritten_or_bare with hwritten | ⟨hempty, rfl⟩
  · rw [hwritten.text]
    simp [hscheme, hcolon, hslash]
  · rw [h.hasScheme.text, hempty]
    simp [hscheme, hcolon]

/-! Each flaw but the first, as the parts show it. -/

theorem foreign_iff : Flaw.foreign.Applies limits url ↔
    scheme.map Char.toLower ≠ "http".toList ∧ scheme.map Char.toLower ≠ "https".toList := by
  constructor
  · rintro ⟨scheme', rest', hscheme, hne⟩
    rwa [(hscheme.unique h.hasScheme).1] at hne
  · exact fun hne => ⟨scheme, rest, h.hasScheme, hne⟩

theorem credentials_iff : Flaw.credentials.Applies limits url ↔ '@' ∈ parts.authority :=
  h.exists_written_iff (P := fun _ authority _ => '@' ∈ authority) fun _ _ => List.not_mem_nil

theorem hostless_iff : Flaw.hostless.Applies limits url ↔
    parts.authority.takeWhile (· != ':') = [] := by
  rw [Flaw.Applies, not_iff_comm, h.exists_written_iff
    (P := fun _ authority _ => authority.takeWhile (· != ':') ≠ []) fun _ _ => by simp]

theorem isBracketless_iff :
    IsBracketless url.toList ↔ IsBracketless parts.authority ∧ IsBracketless tail := by
  simp only [IsBracketless]
  rw [← mem_clean (c := '[') (by decide), ← mem_clean (c := ']') (by decide),
    h.mem_iff (c := '[') (by decide) (by decide) (by decide),
    h.mem_iff (c := ']') (by decide) (by decide) (by decide), not_or, not_or]
  exact and_and_and_comm

theorem pattern_iff : Flaw.pattern.Applies limits url ↔
    ('\x7b' ∈ parts.authority ∨ '\x7b' ∈ tail) ∨ ('\x7d' ∈ parts.authority ∨ '\x7d' ∈ tail) ∨
      ¬ (IsBracketless parts.authority ∧ IsBracketless tail) ∧
      ¬ (IsBracketed parts.authority ∧ IsBracketless tail) := by
  rw [Flaw.Applies, ← mem_clean (c := '\x7b') (by decide), ← mem_clean (c := '\x7d') (by decide),
    h.mem_iff (c := '\x7b') (by decide) (by decide) (by decide),
    h.mem_iff (c := '\x7d') (by decide) (by decide) (by decide), h.isBracketless_iff,
    h.exists_written_iff (P := fun _ authority tail => IsBracketed authority ∧ IsBracketless tail)]
  rintro - tail ⟨⟨address, port, hnil, -⟩, -⟩
  cases hnil

/-! The checks on the parts find the flaws. -/

theorem mem_schemes_iff (limits : Limits) :
    String.ofList parts.scheme ∈ schemes ↔ ¬ Flaw.foreign.Applies limits url := by
  rw [h.foreign_iff, h.lower, ← not_or, not_not]
  simp [schemes, String.ext_iff]

theorem hasCredentials_iff (limits : Limits) :
    parts.hasCredentials = true ↔ Flaw.credentials.Applies limits url := by
  rw [h.credentials_iff, Parts.hasCredentials, List.contains_iff_mem]

theorem host_isEmpty_iff (limits : Limits) (hat : '@' ∉ parts.authority) :
    parts.host.isEmpty = true ↔ Flaw.hostless.Applies limits url := by
  rw [h.hostless_iff, Parts.host, List.isEmpty_iff, hostOf_eq_nil_iff hat h.brackets]

theorem isPattern_iff (limits : Limits) (hat : '@' ∉ parts.authority) :
    parts.isPattern = true ↔ Flaw.pattern.Applies limits url := by
  have htail : tail.any (fun c => "\x7b\x7d[]".toList.contains c) = true ↔
      '\x7b' ∈ tail ∨ '\x7d' ∈ tail ∨ ¬ IsBracketless tail := by
    simp only [List.any_eq_true, IsBracketless]
    grind
  have hbraces : parts.authority.any (fun c => c == '\x7b' || c == '\x7d') = true ↔
      '\x7b' ∈ parts.authority ∨ '\x7d' ∈ parts.authority := by
    simp only [List.any_eq_true]
    grind
  have hbrackets : parts.authority.any (fun c => c == '[' || c == ']') = true ↔
      ¬ IsBracketless parts.authority := by
    simp only [List.any_eq_true, IsBracketless]
    grind
  have hhost : Parts.bracketsHost parts.authority = true ↔ IsBracketed parts.authority :=
    ⟨isBracketed_of_bracketsHost hat h.brackets, fun hhost => (hhost.valid hat).2.1⟩
  rw [h.pattern_iff, Parts.isPattern, h.any_tail _ (by decide) (by decide)]
  simp only [Bool.or_eq_true, Bool.and_eq_true, Bool.not_eq_true', ← Bool.not_eq_true, htail,
    hbraces, hbrackets, hhost]
  -- A bracket after the authority is a pattern, whatever the authority is.
  by_cases hless : IsBracketless tail
  · grind
  · grind

open Classical in
/-- Of a text with a scheme and parts, the checks look for one flaw after the other. -/
theorem checkUrl_eq (limits : Limits) : checkUrl limits url =
    if Flaw.foreign.Applies limits url then .error (Flaw.foreign.violation url)
    else if Flaw.credentials.Applies limits url then .error (Flaw.credentials.violation url)
    else if Flaw.hostless.Applies limits url then .error (Flaw.hostless.violation url)
    else if Flaw.pattern.Applies limits url then .error (Flaw.pattern.violation url)
    else if Flaw.long.Applies limits url then .error (Flaw.long.violation url)
    else .ok () := by
  have habsolute : parts.scheme ≠ [] := by
    obtain ⟨⟨first, hfirst, -⟩, -⟩ := h.hasScheme.scheme
    rw [h.lower]
    rintro hnil
    rw [List.map_eq_nil_iff.1 hnil] at hfirst
    cases hfirst
  have hlong : Flaw.long.Applies limits url ↔ limits.maxUrlLength < url.length := .rfl
  have hscheme := h.mem_schemes_iff limits
  have hcredentials := h.hasCredentials_iff limits
  rw [checkUrl, h.split]
  -- The host can be read off the authority only where there are no credentials in it.
  by_cases hat : Flaw.credentials.Applies limits url
  · simp [habsolute, hscheme, hcredentials, hat, Flaw.violation]
  · have hhost := h.host_isEmpty_iff limits (mt h.credentials_iff.2 hat)
    have hpattern := h.isPattern_iff limits (mt h.credentials_iff.2 hat)
    rw [List.isEmpty_iff] at hhost
    simp [habsolute, hscheme, hcredentials, hat, hhost, hpattern, hlong, Flaw.violation]

end Describes

/-! ### The checks in their order -/

theorem checkUrl_of_malformed (h : Flaw.malformed.Applies limits url) :
    checkUrl limits url = .error (malformedUrl url) := by
  rw [checkUrl]
  cases hsplit : Parts.split? url.toList with
  | none => rfl
  | some parts =>
      have hnone := h.resolve_left (by rw [hsplit]; nofun)
      have hscheme : parts.scheme = [] := by
        rw [scheme_of_split? hsplit]
        rcases hasScheme_or_splitScheme_eq (clean url.toList) with ⟨scheme, rest, hscheme⟩ | hempty
        · exact absurd ⟨scheme, rest, hscheme⟩ hnone
        · rw [hempty]
      simp [hscheme]

/-- The checks report the flaw that comes first. -/
theorem checkUrl_of_isFirst {flaw : Flaw} (h : flaw.IsFirst limits url) :
    checkUrl limits url = .error (flaw.violation url) := by
  obtain ⟨happlies, hearlier⟩ := h
  by_cases hmalformed : Flaw.malformed.Applies limits url
  · obtain rfl : flaw = .malformed := by
      by_contra hne
      exact hearlier .malformed (by cases flaw <;> first | exact absurd rfl hne | decide) hmalformed
    exact checkUrl_of_malformed hmalformed
  · obtain ⟨parts, scheme, rest, tail, hparts⟩ := exists_describes hmalformed
    rw [hparts.checkUrl_eq]
    cases flaw with
    | malformed => exact absurd happlies hmalformed
    | foreign => rw [if_pos happlies]
    | credentials => rw [if_neg (hearlier .foreign (by decide)), if_pos happlies]
    | hostless =>
        rw [if_neg (hearlier .foreign (by decide)), if_neg (hearlier .credentials (by decide)),
          if_pos happlies]
    | pattern =>
        rw [if_neg (hearlier .foreign (by decide)), if_neg (hearlier .credentials (by decide)),
          if_neg (hearlier .hostless (by decide)), if_pos happlies]
    | long =>
        rw [if_neg (hearlier .foreign (by decide)), if_neg (hearlier .credentials (by decide)),
          if_neg (hearlier .hostless (by decide)), if_neg (hearlier .pattern (by decide)),
          if_pos happlies]

theorem checkUrl_of_flawless (h : ∀ flaw : Flaw, ¬ flaw.Applies limits url) :
    checkUrl limits url = .ok () := by
  obtain ⟨parts, scheme, rest, tail, hparts⟩ := exists_describes (h .malformed)
  rw [hparts.checkUrl_eq]
  simp [h]

theorem checkUrl_eq_ok_iff_flawless :
    checkUrl limits url = .ok () ↔ ∀ flaw : Flaw, ¬ flaw.Applies limits url := by
  refine ⟨fun h flaw happlies => ?_, checkUrl_of_flawless⟩
  obtain ⟨first, hfirst⟩ := Flaw.exists_isFirst happlies
  rw [checkUrl_of_isFirst hfirst] at h
  cases h

theorem checkUrl_eq_error_iff {v : Violation} :
    checkUrl limits url = .error v ↔
      ∃ flaw : Flaw, flaw.IsFirst limits url ∧ v = flaw.violation url := by
  constructor
  · intro h
    by_cases hflaw : ∃ flaw : Flaw, flaw.Applies limits url
    · obtain ⟨flaw, happlies⟩ := hflaw
      obtain ⟨first, hfirst⟩ := Flaw.exists_isFirst happlies
      rw [checkUrl_of_isFirst hfirst] at h
      cases h
      exact ⟨first, hfirst, rfl⟩
    · rw [checkUrl_of_flawless (not_exists.1 hflaw)] at h
      cases h
  · rintro ⟨flaw, hfirst, rfl⟩
    exact checkUrl_of_isFirst hfirst

/-! ### Acceptable addresses -/

/-- The text of an address has a scheme and can be split. -/
theorem IsWebAddress.not_malformed {scheme authority tail : List Char}
    (h : IsWebAddress (clean url.toList) scheme authority tail) :
    ¬ Flaw.malformed.Applies limits url := by
  have hscheme := h.written.hasScheme (isScheme_of_http h.scheme)
  have hat : '@' ∉ authority := fun hmem => (h.plain _ hmem).1 rfl
  have hbrackets : bracketsValid authority = true := by
    rcases h.host with ⟨hless, -⟩ | hbracketed
    · exact bracketsValid_of_isBracketless hless
    · exact (hbracketed.valid hat).1
  have hparts : splitAuthority (splitScheme (clean url.toList)).2 = (authority, tail) := by
    rw [splitScheme_of_hasScheme hscheme,
      splitAuthority_of_endsAuthority h.written.authority h.written.tail]
  obtain ⟨path, query, fragment, heq, -⟩ := exists_split?_eq hparts
  rw [hbrackets, h.normal] at heq
  rintro (hsplit | hnone)
  · rw [heq] at hsplit
    cases hsplit
  · exact hnone ⟨scheme, _, hscheme⟩

/-- Apart from how it is written, what makes a text an address is said of its authority and of what
surrounds it. -/
theorem isWebAddress_iff : IsWebAddress cs scheme authority tail ↔
    IsScheme scheme ∧ IsWritten cs scheme authority tail ∧
      (scheme.map Char.toLower = "http".toList ∨ scheme.map Char.toLower = "https".toList) ∧
      normalisesSafely authority = true ∧
      (∀ c ∈ authority, c ≠ '@' ∧ c ≠ '\x7b' ∧ c ≠ '\x7d') ∧
      (IsBracketless authority ∧ authority.takeWhile (· != ':') ≠ [] ∨ IsBracketed authority) ∧
      IsBracketless tail ∧ '\x7b' ∉ tail ∧ '\x7d' ∉ tail :=
  ⟨fun h => ⟨isScheme_of_http h.scheme, h.written, h.scheme, h.normal, h.plain, h.host, h.single⟩,
    fun ⟨_, written, scheme, normal, plain, host, single⟩ =>
      ⟨written, scheme, normal, plain, host, single⟩⟩

/-- The parts of a text show whether it is an address. -/
theorem Describes.isWebAddress_iff {parts : Parts} (h : Describes url parts scheme rest tail) :
    (∃ scheme authority tail, IsWebAddress (clean url.toList) scheme authority tail) ↔
      ¬ Flaw.foreign.Applies limits url ∧ ¬ Flaw.credentials.Applies limits url ∧
      ¬ Flaw.hostless.Applies limits url ∧ ¬ Flaw.pattern.Applies limits url := by
  have hplain : (∀ c ∈ parts.authority, c ≠ '@' ∧ c ≠ '\x7b' ∧ c ≠ '\x7d') ↔
      '@' ∉ parts.authority ∧ '\x7b' ∉ parts.authority ∧ '\x7d' ∉ parts.authority := by
    grind
  have hhost : IsBracketed parts.authority → parts.authority.takeWhile (· != ':') ≠ [] := by
    rintro ⟨address, port, heq, -⟩
    simp [heq]
  have hnormal := h.normal
  simp only [Policy.isWebAddress_iff]
  rw [h.exists_written_iff, h.foreign_iff, h.credentials_iff, h.hostless_iff, h.pattern_iff, hplain]
  · grind
  · rintro scheme tail ⟨-, -, -, ⟨-, hnil⟩ | ⟨address, port, hnil, -⟩, -⟩
    · exact hnil rfl
    · cases hnil

/-- The addresses on the web are the texts without a flaw that are short enough. -/
theorem flawless_iff : (∀ flaw : Flaw, ¬ flaw.Applies limits url) ↔
    (∃ scheme authority tail, IsWebAddress (clean url.toList) scheme authority tail) ∧
      url.length ≤ limits.maxUrlLength := by
  have hlong : ¬ Flaw.long.Applies limits url ↔ url.length ≤ limits.maxUrlLength := Int.not_lt
  constructor
  · intro h
    obtain ⟨parts, scheme, rest, tail, hparts⟩ := exists_describes (h .malformed)
    exact ⟨hparts.isWebAddress_iff.2 ⟨h .foreign, h .credentials, h .hostless, h .pattern⟩,
      hlong.1 (h .long)⟩
  · rintro ⟨haddress, hlength⟩ flaw
    have hmalformed : ¬ Flaw.malformed.Applies limits url := by
      obtain ⟨scheme, authority, tail, haddress⟩ := haddress
      exact haddress.not_malformed
    obtain ⟨parts, scheme, rest, tail, hparts⟩ := exists_describes hmalformed
    obtain ⟨hforeign, hcredentials, hhostless, hpattern⟩ := hparts.isWebAddress_iff.1 haddress
    cases flaw with
    | malformed => exact hmalformed
    | foreign => exact hforeign
    | credentials => exact hcredentials
    | hostless => exact hhostless
    | pattern => exact hpattern
    | long => exact hlong.2 hlength

/-- The brackets of an address are those of its authority. -/
theorem IsWebAddress.count_bracket (h : IsWebAddress (clean url.toList) scheme authority tail)
    {c : Char} (hc : c = '[' ∨ c = ']') : url.toList.count c = authority.count c := by
  have hscheme : c ∉ scheme := fun hmem => by
    have hchar := (isScheme_of_http h.scheme).2 c hmem
    rcases hc with rfl | rfl <;> exact absurd hchar (by decide)
  have htail : c ∉ tail := by
    rcases hc with rfl | rfl
    · exact h.single.1.1
    · exact h.single.1.2
  have hmarks : c ∉ "://".toList := by rcases hc with rfl | rfl <;> decide
  have hgraphic : 0x20 < c.toNat := by rcases hc with rfl | rfl <;> decide
  rw [← count_clean hgraphic, h.written.text, List.count_append, List.count_append,
    List.count_append, List.count_eq_zero_of_not_mem hscheme, List.count_eq_zero_of_not_mem hmarks,
    List.count_eq_zero_of_not_mem htail]
  omega

theorem count_bracket_of_isBracketed (h : IsBracketed authority) :
    authority.count '[' = 1 ∧ authority.count ']' = 1 := by
  obtain ⟨address, port, rfl, ⟨hopened, hclosed⟩, ⟨hopened', hclosed'⟩, -⟩ := h
  simp [List.count_eq_zero_of_not_mem, hopened, hclosed, hopened', hclosed']

/-- The policy accepts exactly the addresses on the web that are short enough. In an accepted URL
there is no brace, and no bracket but the one pair around its host; of one that is not accepted, the
flaw that comes first is reported. -/
theorem checkUrl_accepts_web_addresses (limits : Limits) (url : String) :
    (checkUrl limits url = .ok () ↔
      (∃ scheme authority tail, IsWebAddress (clean url.toList) scheme authority tail) ∧
        url.length ≤ limits.maxUrlLength) ∧
    (checkUrl limits url = .ok () → '\x7b' ∉ url.toList ∧ '\x7d' ∉ url.toList ∧
      (IsBracketless url.toList ∨ url.toList.count '[' = 1 ∧ url.toList.count ']' = 1 ∧
        ∃ scheme authority tail, IsWebAddress (clean url.toList) scheme authority tail ∧
          IsBracketed authority)) ∧
    (∀ v, checkUrl limits url = .error v ↔
      ∃ flaw : Flaw, flaw.IsFirst limits url ∧ v = flaw.violation url) := by
  refine ⟨checkUrl_eq_ok_iff_flawless.trans flawless_iff, fun h => ?_,
    fun v => checkUrl_eq_error_iff⟩
  have hflawless := checkUrl_eq_ok_iff_flawless.1 h
  obtain ⟨hopened, hrest⟩ := not_or.1 (hflawless .pattern)
  obtain ⟨hclosed, hbrackets⟩ := not_or.1 hrest
  refine ⟨hopened, hclosed, ?_⟩
  obtain ⟨scheme, authority, tail, haddress⟩ := (flawless_iff.1 hflawless).1
  have hopening := haddress.count_bracket (.inl rfl)
  have hclosing := haddress.count_bracket (.inr rfl)
  rcases haddress.host with ⟨⟨hopen, hclose⟩, -⟩ | hbracketed
  · left
    rw [IsBracketless, ← List.count_eq_zero, ← List.count_eq_zero, hopening, hclosing]
    exact ⟨List.count_eq_zero_of_not_mem hopen, List.count_eq_zero_of_not_mem hclose⟩
  · obtain ⟨hopen, hclose⟩ := count_bracket_of_isBracketed hbracketed
    exact .inr ⟨hopening.trans hopen, hclosing.trans hclose, scheme, authority, tail, haddress,
      hbracketed⟩

/-- The text is the address of something on the web, if nothing is dropped from it but tabs and line
breaks, and if anything may follow the brackets of a host and the percent sign in them. -/
def IsNominalAddress (limits : Limits) (url : String) : Prop :=
  ∃ scheme authority tail,
    IsWritten (url.toList.filter fun c => !isLineControl c) scheme authority tail ∧
    (scheme.map Char.toLower = "http".toList ∨ scheme.map Char.toLower = "https".toList) ∧
    normalisesSafely authority = true ∧
    (∀ c ∈ authority, c ≠ '@' ∧ c ≠ '\x7b' ∧ c ≠ '\x7d') ∧
    (IsBracketless authority ∧ authority.takeWhile (· != ':') ≠ [] ∨
      ∃ address rest, authority = '[' :: (address ++ ']' :: rest) ∧ IsBracketless address ∧
        IsBracketless rest ∧ Ipv6.isAddress (address.takeWhile (· != '%')) = true) ∧
    (IsBracketless tail ∧ '\x7b' ∉ tail ∧ '\x7d' ∉ tail) ∧
    url.length ≤ limits.maxUrlLength

/-- A space in front of an address is dropped before it is split, what follows the brackets must be
a port, and what follows a percent sign must be a scope. -/
theorem checkUrl_ne_nominal :
    ¬ (checkUrl {} " http://a" = .ok () ↔ IsNominalAddress {} " http://a") ∧
    ¬ (checkUrl {} "http://[::1]x" = .ok () ↔ IsNominalAddress {} "http://[::1]x") ∧
    ¬ (checkUrl {} "http://[::1%]" = .ok () ↔ IsNominalAddress {} "http://[::1%]") := by
  refine ⟨fun h => ?_, fun h => ?_, fun h => ?_⟩
  · have haccepted : checkUrl {} " http://a" = .ok () := by decide
    obtain ⟨scheme, authority, tail, hwritten, hscheme, -⟩ := h.1 haccepted
    obtain ⟨first, hfirst, halpha⟩ := (isScheme_of_http hscheme).1
    obtain ⟨more, rfl⟩ := List.head?_eq_some_iff.1 hfirst
    -- What is left of the text starts with the space, which starts no scheme.
    have hspace : ' ' = first := (List.cons.inj hwritten.text).1
    subst hspace
    exact absurd halpha (by decide)
  · have hrefused : checkUrl {} "http://[::1]x" ≠ .ok () := by decide
    refine hrefused (h.2 ⟨"http".toList, "[::1]x".toList, [], ⟨by decide, ?_, nofun⟩, .inl rfl,
      by decide, ?_, .inr ⟨"::1".toList, "x".toList, rfl, by decide, by decide, by decide⟩,
      ⟨by decide, nofun, nofun⟩, by decide⟩)
    · simp [endsAuthority]
    · simp
  · have hrefused : checkUrl {} "http://[::1%]" ≠ .ok () := by decide
    refine hrefused (h.2 ⟨"http".toList, "[::1%]".toList, [], ⟨by decide, ?_, nofun⟩, .inl rfl,
      by decide, ?_, .inr ⟨"::1%".toList, [], rfl, by decide, by decide, by decide⟩,
      ⟨by decide, nofun, nofun⟩, by decide⟩)
    · simp [endsAuthority]
    · simp

end Policy

end CurlWarden
