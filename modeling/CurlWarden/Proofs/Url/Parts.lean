import CurlWarden.Proofs.Text.Split
import CurlWarden.Url.Parts
import Mathlib.Data.List.TakeWhile

/-!
# What the parts of a URL say about its text

A reference is cleaned before it is split, so its parts describe the clean text. This module reads
the text off the parts: a scheme stands in front of the first colon (`exists_of_splitScheme`), and
an authority behind two slashes (`exists_of_splitAuthority`). And it says which texts are clean to
begin with (`clean_eq_self_iff`): only of these do the parts describe the reference itself.
-/

namespace CurlWarden

namespace Url

variable {cs : List Char}

/-- There is no tab and no line break in the text. -/
def IsUnbroken (cs : List Char) : Prop := ∀ c ∈ cs, c ≠ '\t' ∧ c ≠ '\n' ∧ c ≠ '\r'

/-- The text starts with `http://` or `https://`, in any mixture of cases. -/
def StartsHttp (cs : List Char) : Prop :=
  ∃ scheme rest, cs = scheme ++ "://".toList ++ rest ∧
    (scheme.map Char.toLower = "http".toList ∨ scheme.map Char.toLower = "https".toList)

/-! ### Clean texts -/

theorem isLineControl_eq_false_iff {c : Char} :
    isLineControl c = false ↔ c ≠ '\t' ∧ c ≠ '\n' ∧ c ≠ '\r' := by
  simp [isLineControl, and_assoc]

theorem filter_isLineControl_eq_self_iff :
    cs.filter (fun c => !isLineControl c) = cs ↔ IsUnbroken cs := by
  rw [List.filter_eq_self]
  simp only [Bool.not_eq_true', isLineControl_eq_false_iff]
  rfl

theorem dropWhile_control_eq_self_iff :
    cs.dropWhile (fun c => decide (c.toNat ≤ 0x20)) = cs ↔ ∀ c ∈ cs.head?, 0x20 < c.toNat := by
  rw [List.dropWhile_eq_self_iff]
  cases cs with
  | nil => simp
  | cons d cs => simp

/-- A text is clean if it neither starts with a control or a space nor is broken. -/
theorem clean_eq_self_iff :
    clean cs = cs ↔ (∀ c ∈ cs.head?, 0x20 < c.toNat) ∧ IsUnbroken cs := by
  rw [← filter_isLineControl_eq_self_iff, ← dropWhile_control_eq_self_iff]
  constructor
  · intro h
    -- Neither of the two steps makes a text longer, so neither makes this one shorter.
    have hdrop : cs.dropWhile (fun c => decide (c.toNat ≤ 0x20)) = cs := by
      apply (List.dropWhile_suffix _).eq_of_length_le
      calc cs.length = (clean cs).length := by rw [h]
        _ ≤ _ := List.length_filter_le _ _
    rw [clean, hdrop] at h
    exact ⟨hdrop, h⟩
  · intro h
    rw [clean, h.1, h.2]

/-- What starts with the scheme of the web starts with no control or space. -/
theorem StartsHttp.head? (h : StartsHttp cs) : ∀ c ∈ cs.head?, 0x20 < c.toNat := by
  obtain ⟨scheme, rest, rfl, hscheme⟩ := h
  intro c hc
  have hlower : c.toLower = 'h' := by
    cases scheme with
    | nil => simp at hscheme
    | cons d scheme =>
        obtain rfl : d = c := by simpa using hc
        rcases hscheme with hscheme | hscheme
        · exact (List.cons.inj hscheme).1
        · exact (List.cons.inj hscheme).1
  unfold Char.toLower at hlower
  split at hlower
  · next hupper =>
    have hval : 65 ≤ c.toNat := hupper.1
    omega
  · subst hlower
    decide

/-! ### What is split -/

/-- A scheme stands in front of the first colon. -/
theorem exists_of_splitScheme (h : (splitScheme cs).1 ≠ []) :
    ∃ scheme, (splitScheme cs).1 = scheme.map Char.toLower ∧
      cs = scheme ++ ':' :: (splitScheme cs).2 := by
  unfold splitScheme at h ⊢
  dsimp only at h ⊢
  split at h
  · next first more hfirst =>
    split at h
    · next hscheme =>
      have hmem : ':' ∈ cs := by simpa using (Bool.and_eq_true_iff.1 hscheme).2
      rw [if_pos hscheme]
      exact ⟨_, rfl, Text.eq_append_splitAtFirst hmem⟩
    · exact absurd rfl h
  · exact absurd rfl h

/-- An authority stands behind two slashes. -/
theorem exists_of_splitAuthority (h : (splitAuthority cs).1 ≠ []) :
    ∃ rest, cs = '/' :: '/' :: rest := by
  unfold splitAuthority at h
  split at h
  · exact ⟨_, rfl⟩
  · exact absurd rfl h

/-- A reference that can be split is made of the parts, once it is clean. -/
theorem exists_of_split? {parts : Parts} (h : Parts.split? cs = some parts)
    (hscheme : parts.scheme ≠ []) (hauthority : parts.authority ≠ []) :
    ∃ scheme rest, parts.scheme = scheme.map Char.toLower ∧
      clean cs = scheme ++ "://".toList ++ rest := by
  have hparts : parts.scheme = (splitScheme (clean cs)).1 ∧
      parts.authority = (splitAuthority (splitScheme (clean cs)).2).1 := by
    unfold Parts.split? at h
    dsimp only at h
    split at h
    · cases h
      exact ⟨rfl, rfl⟩
    · cases h
  rw [hparts.1] at hscheme
  rw [hparts.2] at hauthority
  obtain ⟨scheme, hlower, hclean⟩ := exists_of_splitScheme hscheme
  obtain ⟨rest, hrest⟩ := exists_of_splitAuthority hauthority
  refine ⟨scheme, rest, hparts.1.trans hlower, ?_⟩
  rw [hclean, hrest]
  simp

end Url

end CurlWarden
