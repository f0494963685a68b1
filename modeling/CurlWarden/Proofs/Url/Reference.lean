import CurlWarden.Proofs.Url.Parts

/-!
# References as texts

What it takes for a text to have a scheme and an authority, said of the text alone: a scheme stands
in front of a colon (`HasScheme`), and an authority between two slashes and the first slash,
question mark or number sign after them (`IsWritten`). The splitter finds them exactly where they
are (`splitScheme_of_hasScheme`, `splitAuthority_of_endsAuthority`), and what is left of the text it
only divides further, without changing its characters (`exists_split?_eq`).

An authority without credentials that may be split has no brackets, or they stand at its front; and
if they are no pattern, they stand once, around an address (`isBracketed_of_bracketsHost`).
-/

namespace CurlWarden

namespace Url

variable {cs scheme rest authority tail : List Char}

/-! ### Schemes -/

/-- A letter, and then letters, digits, plus signs, dashes and points. -/
def IsScheme (scheme : List Char) : Prop :=
  (∃ first ∈ scheme.head?, first.isAlpha = true) ∧ ∀ c ∈ scheme, isSchemeChar c = true

/-- The text is the scheme, a colon, and `rest`. -/
structure HasScheme (cs scheme rest : List Char) : Prop where
  text : cs = scheme ++ ':' :: rest
  scheme : IsScheme scheme

theorem splitScheme_of_hasScheme (h : HasScheme cs scheme rest) :
    splitScheme cs = (scheme.map Char.toLower, rest) := by
  obtain ⟨rfl, ⟨first, hfirst, halpha⟩, hchars⟩ := h
  have hcolon : ':' ∉ scheme := fun hmem => absurd (hchars _ hmem) (by decide)
  obtain ⟨more, rfl⟩ := List.head?_eq_some_iff.1 hfirst
  have hall : (first :: more).all isSchemeChar = true := List.all_eq_true.2 hchars
  rw [splitScheme, Text.splitAtFirst_append hcolon]
  simp [halpha, hall]

/-- What is split off as a scheme is one, and otherwise there is none. -/
theorem hasScheme_or_splitScheme_eq (cs : List Char) :
    (∃ scheme rest, HasScheme cs scheme rest) ∨ splitScheme cs = ([], cs) := by
  unfold splitScheme
  dsimp only
  split
  · next first more hfirst =>
    split
    · next hscheme =>
      obtain ⟨⟨halpha, hchars⟩, hcolon⟩ := (Bool.and_eq_true_iff.1 hscheme).imp_left
        Bool.and_eq_true_iff.1
      rw [List.contains_iff_mem] at hcolon
      refine .inl ⟨_, _, Text.eq_append_splitAtFirst hcolon, ?_, List.all_eq_true.1 hchars⟩
      rw [hfirst]
      exact ⟨first, rfl, halpha⟩
    · exact .inr rfl
  · exact .inr rfl

theorem HasScheme.unique {scheme' rest' : List Char} (h : HasScheme cs scheme rest)
    (h' : HasScheme cs scheme' rest') : scheme = scheme' ∧ rest = rest' := by
  have hcolon : ∀ {scheme rest}, HasScheme cs scheme rest →
      Text.splitAtFirst ':' cs = (scheme, rest) := by
    intro scheme rest h
    rw [h.text, Text.splitAtFirst_append fun hmem => absurd (h.scheme.2 _ hmem) (by decide)]
  exact Prod.mk.inj ((hcolon h).symm.trans (hcolon h'))

/-! ### Authorities -/

/-- The text is written `scheme://authority tail`, where the authority ends at the first slash,
question mark or number sign. -/
structure IsWritten (cs scheme authority tail : List Char) : Prop where
  text : cs = scheme ++ "://".toList ++ authority ++ tail
  authority : ∀ c ∈ authority, endsAuthority c = false
  tail : ∀ c ∈ tail.head?, endsAuthority c = true

theorem IsWritten.hasScheme (h : IsWritten cs scheme authority tail) (hscheme : IsScheme scheme) :
    HasScheme cs scheme ('/' :: '/' :: (authority ++ tail)) := by
  refine ⟨?_, hscheme⟩
  rw [h.text]
  simp

theorem splitAuthority_of_endsAuthority (hauthority : ∀ c ∈ authority, endsAuthority c = false)
    (htail : ∀ c ∈ tail.head?, endsAuthority c = true) :
    splitAuthority ('/' :: '/' :: (authority ++ tail)) = (authority, tail) := by
  have hpos : ∀ c ∈ authority, (!endsAuthority c) = true := fun c hc => by simp [hauthority c hc]
  have hstop : tail.takeWhile (!endsAuthority ·) = [] ∧
      tail.dropWhile (!endsAuthority ·) = tail := by
    cases tail with
    | nil => exact ⟨rfl, rfl⟩
    | cons c tail =>
        have hc := htail c rfl
        simp [hc]
  rw [splitAuthority, List.takeWhile_append_of_pos hpos, List.dropWhile_append_of_pos hpos,
    hstop.1, hstop.2, List.append_nil]

/-- What is split off after two slashes is an authority, and otherwise there is none. -/
theorem exists_written_or_splitAuthority_eq (rest : List Char) :
    (∃ authority tail, rest = '/' :: '/' :: (authority ++ tail) ∧
      (∀ c ∈ authority, endsAuthority c = false) ∧ ∀ c ∈ tail.head?, endsAuthority c = true) ∨
    splitAuthority rest = ([], rest) := by
  unfold splitAuthority
  split
  · next cs =>
    refine .inl ⟨cs.takeWhile (!endsAuthority ·), cs.dropWhile (!endsAuthority ·), ?_, ?_, ?_⟩
    · rw [List.takeWhile_append_dropWhile]
    · intro c hc
      simpa using List.all_eq_true.1 List.all_takeWhile c hc
    · intro c hc
      have hstop := List.head?_dropWhile_not (fun c => !endsAuthority c) cs
      rw [Option.mem_def.1 hc] at hstop
      simpa using hstop
  · exact .inr rfl

/-- A text is written in one way only. -/
theorem IsWritten.splitAuthority_eq {scheme' : List Char}
    (h : IsWritten cs scheme' authority tail) (hscheme' : IsScheme scheme')
    (hscheme : HasScheme cs scheme rest) :
    scheme' = scheme ∧ splitAuthority rest = (authority, tail) := by
  obtain ⟨rfl, rfl⟩ := (h.hasScheme hscheme').unique hscheme
  exact ⟨rfl, splitAuthority_of_endsAuthority h.authority h.tail⟩

/-- What is split is divided as the text is, as long as the authority may be split. -/
theorem exists_split?_eq {authority tail : List Char}
    (h : splitAuthority (splitScheme (clean cs)).2 = (authority, tail)) :
    ∃ path query fragment,
      Parts.split? cs = (if bracketsValid authority && normalisesSafely authority then
        some ⟨(splitScheme (clean cs)).1, authority, path, query, fragment⟩ else none) ∧
      ∀ p : Char → Bool, p '?' = false → p '#' = false →
        (path ++ query ++ fragment).any p = tail.any p := by
  refine ⟨(Text.splitAtFirst '?' (Text.splitAtFirst '#' tail).1).1,
    (Text.splitAtFirst '?' (Text.splitAtFirst '#' tail).1).2, (Text.splitAtFirst '#' tail).2,
    ?_, ?_⟩
  · rw [Parts.split?]
    dsimp only
    rw [h]
  · intro p hquery hfragment
    rw [List.any_append, Text.any_splitAtFirst hquery, ← List.any_append,
      Text.any_splitAtFirst hfragment]

theorem scheme_of_split? {parts : Parts} (h : Parts.split? cs = some parts) :
    parts.scheme = (splitScheme (clean cs)).1 := by
  rw [Parts.split?] at h
  dsimp only at h
  split at h
  · cases h
    rfl
  · cases h

/-! ### Brackets -/

/-- No bracket stands in the text. -/
def IsBracketless (cs : List Char) : Prop := '[' ∉ cs ∧ ']' ∉ cs

instance (cs : List Char) : Decidable (IsBracketless cs) :=
  inferInstanceAs (Decidable ('[' ∉ cs ∧ ']' ∉ cs))

/-- The authority is an address in brackets, perhaps with a port after it. -/
def IsBracketed (authority : List Char) : Prop :=
  ∃ address port, authority = '[' :: (address ++ ']' :: port) ∧ IsBracketless address ∧
    IsBracketless port ∧ Ipv6.isScopedAddress address = true ∧ ∀ c ∈ port.head?, c = ':'

namespace Ipv6

theorem splitOn_cons_of_ne {c d : Char} (h : c ≠ d) (cs : List Char) :
    ∃ part parts, (c :: cs).splitOn d = (c :: part) :: parts := by
  rw [List.splitOn, List.splitOnP_cons_eq_if_modifyHead, if_neg (by simpa using h)]
  cases hparts : cs.splitOnP (· == d) with
  | nil => exact absurd hparts (List.splitOnP_ne_nil _ _)
  | cons part parts => exact ⟨part, parts, rfl⟩

/-- No group of an address starts with the letter that starts an address of another version. -/
theorem runCount?_v (tail : Bool) (cs : List Char) : runCount? tail ('v' :: cs) = none := by
  have hgroup : ∀ part, isGroup ('v' :: part) = false := fun part => by
    simp [isGroup, show Text.hexValue? 'v' = none by decide]
  have hoctets : ∀ part, isIpv4 ('v' :: part) = false := fun part => by
    obtain ⟨octet, octets, hsplit⟩ := splitOn_cons_of_ne (d := '.') (c := 'v') (by decide) part
    have hoctet : isOctet ('v' :: octet) = false := by
      simp [isOctet, show Text.isAsciiDigit 'v' = false by decide]
    simp [isIpv4, hsplit, hoctet]
  obtain ⟨part, parts, hsplit⟩ := splitOn_cons_of_ne (d := ':') (c := 'v') (by decide) cs
  rw [runCount?, hsplit]
  cases parts with
  | nil => simp [groupCount?, hgroup, hoctets]
  | cons next parts => simp [groupCount?, hgroup]

theorem isAddress_v (cs : List Char) : isAddress ('v' :: cs) = false := by
  rw [isAddress]
  cases hgap : splitGap? ('v' :: cs) with
  | none => simp [runCount?_v]
  | some parts =>
      obtain ⟨before, after⟩ := parts
      rw [splitGap?] at hgap
      · obtain ⟨⟨before', after'⟩, -, heq⟩ := Option.map_eq_some_iff.1 hgap
        cases heq
        simp [runCount?_v]
      · exact fun _ h => absurd h (by decide)

theorem isAddress_nil : isAddress [] = false := by decide

end Ipv6

section
variable {address port : List Char}

theorem isBracketHost_of_isScopedAddress (h : Ipv6.isScopedAddress address = true) :
    isBracketHost address = true := by
  rw [isBracketHost]
  split
  · next hv =>
    -- Such a text is no address up to its scope.
    obtain ⟨cs, rfl⟩ := List.head?_eq_some_iff.1 (eq_of_beq hv)
    rw [Ipv6.isScopedAddress] at h
    simp [Ipv6.isAddress_v] at h
  · exact h

theorem isScopedAddress_of_isBracketHost (h : isBracketHost address = true)
    (haddress : Ipv6.isAddress (address.takeWhile (· != '%')) = true) :
    Ipv6.isScopedAddress address = true := by
  rw [isBracketHost] at h
  split at h
  · next hv =>
    obtain ⟨cs, rfl⟩ := List.head?_eq_some_iff.1 (eq_of_beq hv)
    simp [Ipv6.isAddress_v] at haddress
  · exact h

theorem isAddress_of_isScopedAddress (h : Ipv6.isScopedAddress address = true) :
    Ipv6.isAddress (address.takeWhile (· != '%')) = true :=
  (Bool.and_eq_true_iff.1 h).1

/-! An authority that starts with an opening bracket, with what its checks come to. -/

variable (hat : '@' ∉ '[' :: (address ++ ']' :: port)) (hclosed : ']' ∉ address)
include hclosed

theorem splitAtFirst_bracketed (port : List Char) :
    Text.splitAtFirst '[' ('[' :: (address ++ ']' :: port)) = ([], address ++ ']' :: port) ∧
      Text.splitAtFirst ']' (address ++ ']' :: port) = (address, port) :=
  ⟨Text.splitAtFirst_append List.not_mem_nil, Text.splitAtFirst_append hclosed⟩

include hat

theorem hostOf_bracketed : hostOf ('[' :: (address ++ ']' :: port)) = address := by
  obtain ⟨hopen, hclose⟩ := splitAtFirst_bracketed hclosed port
  have hinside : (address ++ ']' :: port).takeWhile (· != ']') = address := congrArg Prod.fst hclose
  rw [hostOf, hostPort, Text.afterLast_of_not_mem hat, bracketed?, hopen]
  simp [hinside]

theorem bracketsValid_bracketed : bracketsValid ('[' :: (address ++ ']' :: port)) =
    ((port.isEmpty || port.head? == some ':') && isBracketHost address) := by
  obtain ⟨hopen, hclose⟩ := splitAtFirst_bracketed hclosed port
  have hplace : bracketsInPlace ('[' :: (address ++ ']' :: port)) =
      (port.isEmpty || port.head? == some ':') := by
    rw [bracketsInPlace, hopen]
    dsimp only
    rw [hclose]
    simp
  rw [bracketsValid, hostOf_bracketed hat hclosed, hostPort, Text.afterLast_of_not_mem hat, hplace]
  simp

theorem bracketsHost_bracketed_iff :
    Parts.bracketsHost ('[' :: (address ++ ']' :: port)) = true ↔
      IsBracketless address ∧ IsBracketless port ∧
        Ipv6.isAddress (address.takeWhile (· != '%')) = true := by
  obtain ⟨hopen, hclose⟩ := splitAtFirst_bracketed hclosed port
  have hinside : (address ++ ']' :: port).takeWhile (· != ']') = address := congrArg Prod.fst hclose
  rw [Parts.bracketsHost, hostPort, Text.afterLast_of_not_mem hat, hopen]
  dsimp only
  rw [hinside]
  simp only [Bool.and_eq_true, beq_iff_eq, List.head?_cons, true_and, List.count_cons,
    List.count_append, IsBracketless, ← List.count_eq_zero]
  have hzero := List.count_eq_zero_of_not_mem hclosed
  simp [hzero, and_assoc]

end

/-- An address in brackets may be split, and it is no pattern. -/
theorem IsBracketed.valid (h : IsBracketed authority) (hat : '@' ∉ authority) :
    bracketsValid authority = true ∧ Parts.bracketsHost authority = true ∧
      hostOf authority ≠ [] := by
  obtain ⟨address, port, rfl, haddress, hport, hscoped, hcolon⟩ := h
  refine ⟨?_, ?_, ?_⟩
  · rw [bracketsValid_bracketed hat haddress.2, isBracketHost_of_isScopedAddress hscoped]
    cases port with
    | nil => rfl
    | cons c port => simp [hcolon c rfl]
  · exact (bracketsHost_bracketed_iff hat haddress.2).2
      ⟨haddress, hport, isAddress_of_isScopedAddress hscoped⟩
  · rw [hostOf_bracketed hat haddress.2]
    rintro rfl
    simp [Ipv6.isScopedAddress, Ipv6.isAddress_nil] at hscoped

/-- Brackets that may be split and are no pattern stand around an address. -/
theorem isBracketed_of_bracketsHost (hat : '@' ∉ authority)
    (hvalid : bracketsValid authority = true) (h : Parts.bracketsHost authority = true) :
    IsBracketed authority := by
  have hmembers : (∃ inside, authority = '[' :: inside) ∧ ']' ∈ authority := by
    rw [Parts.bracketsHost, hostPort, Text.afterLast_of_not_mem hat] at h
    simp only [Bool.and_eq_true, beq_iff_eq] at h
    obtain ⟨⟨⟨hhead, -⟩, hcount⟩, -⟩ := h
    exact ⟨List.head?_eq_some_iff.1 hhead, List.count_pos_iff.1 (by omega)⟩
  obtain ⟨⟨inside, rfl⟩, hmem⟩ := hmembers
  replace hmem : ']' ∈ inside := by simpa using hmem
  obtain ⟨address, port, rfl, hclosed⟩ : ∃ address port, inside = address ++ ']' :: port ∧
      ']' ∉ address :=
    ⟨_, _, Text.eq_append_splitAtFirst hmem, fun h => by
      simpa using List.all_eq_true.1 List.all_takeWhile _ h⟩
  obtain ⟨haddress, hport, hvalue⟩ := (bracketsHost_bracketed_iff hat hclosed).1 h
  rw [bracketsValid_bracketed hat hclosed, Bool.and_eq_true] at hvalid
  refine ⟨address, port, rfl, haddress, hport,
    isScopedAddress_of_isBracketHost hvalid.2 hvalue, fun c hc => ?_⟩
  have hcolon := hvalid.1
  rw [Option.mem_def.1 hc] at hcolon
  cases port with
  | nil => cases hc
  | cons d port => simpa using hcolon

/-- Brackets that may be split stand at the front of the host, and it is not empty. -/
theorem hostOf_ne_nil_of_bracket (hat : '@' ∉ authority) (hvalid : bracketsValid authority = true)
    (h : ¬ IsBracketless authority) :
    (∃ inside, authority = '[' :: inside) ∧ hostOf authority ≠ [] := by
  have hboth : '[' ∈ authority ∧ bracketsInPlace authority = true ∧
      isBracketHost (hostOf authority) = true := by
    rw [bracketsValid, hostPort, Text.afterLast_of_not_mem hat] at hvalid
    rw [IsBracketless, ← List.contains_iff_mem, ← List.contains_iff_mem] at h
    rw [← List.contains_iff_mem]
    cases hopened : authority.contains '[' with
    | false => simp_all
    | true =>
        simp only [hopened, Bool.not_true, Bool.false_and, Bool.false_eq_true, if_false,
          Bool.true_and, Bool.and_eq_true] at hvalid
        exact ⟨rfl, hvalid.1.2, hvalid.2⟩
  obtain ⟨hmem, hplace, hhost⟩ := hboth
  refine ⟨?_, ?_⟩
  · have hfront : (Text.splitAtFirst '[' authority).1 = [] := by
      rw [bracketsInPlace] at hplace
      simp [hmem] at hplace
      exact hplace.1
    have hsplit := Text.eq_append_splitAtFirst hmem
    rw [hfront, List.nil_append] at hsplit
    exact ⟨_, hsplit⟩
  · intro hnil
    rw [hnil] at hhost
    exact absurd hhost (by decide)

theorem bracketsValid_of_isBracketless (h : IsBracketless authority) :
    bracketsValid authority = true := by
  simp [bracketsValid, h.1, h.2]

/-- An authority that may be split and has no credentials names no host exactly if it is empty in
front of the first colon. -/
theorem hostOf_eq_nil_iff (hat : '@' ∉ authority) (hvalid : bracketsValid authority = true) :
    hostOf authority = [] ↔ authority.takeWhile (· != ':') = [] := by
  by_cases h : IsBracketless authority
  · have hnone : bracketed? authority = none := by simp [bracketed?, h.1]
    rw [hostOf, hostPort, Text.afterLast_of_not_mem hat, hnone, Option.getD_none]
  · obtain ⟨⟨inside, rfl⟩, hne⟩ := hostOf_ne_nil_of_bracket hat hvalid h
    simp [hne]

/-! ### The web -/

/-- Which letters become small is known of those that make up `http` and `https`. -/
theorem isAlpha_of_toLower {c : Char} (h : c.toLower ∈ "https".toList) : c.isAlpha = true := by
  unfold Char.toLower at h
  split at h
  · next hupper =>
    have hcase : c.isUpper = true := decide_eq_true hupper
    exact Bool.or_eq_true_iff.2 (.inl hcase)
  · have hletters : "https".toList.all Char.isAlpha = true := by decide
    exact List.all_eq_true.1 hletters c h

theorem isScheme_of_http
    (h : scheme.map Char.toLower = "http".toList ∨ scheme.map Char.toLower = "https".toList) :
    IsScheme scheme := by
  have hletters : ∀ c ∈ scheme, c.isAlpha = true := by
    intro c hc
    apply isAlpha_of_toLower
    have hmem : c.toLower ∈ scheme.map Char.toLower := List.mem_map.2 ⟨c, hc, rfl⟩
    rcases h with h | h
    · rw [h] at hmem
      exact List.mem_of_mem_take (i := 4) hmem
    · rwa [h] at hmem
  refine ⟨?_, fun c hc => by simp [isSchemeChar, hletters c hc]⟩
  cases scheme with
  | nil => simp at h
  | cons first more => exact ⟨first, rfl, hletters first (.head _)⟩

end Url

end CurlWarden
