import CurlWarden.Text.Search
import Mathlib.Data.List.TakeWhile

/-!
# Texts split at a character

A text that has a character is what stands before the first one, that character, and the rest. The
splitters find exactly these sides (`splitAtFirst_append`, `afterLast_append_cons`), so a text is
put together again from them (`eq_append_splitAtFirst`).
-/

namespace CurlWarden.Text

variable {p : Char → Bool} {c : Char} {cs rest : List Char}

/-- Nothing is dropped from a character on that is to be kept. -/
theorem dropWhile_append_cons (hc : p c = false) :
    (cs ++ c :: rest).dropWhile p = cs.dropWhile p ++ c :: rest := by
  rw [List.dropWhile_append]
  split
  · next hempty =>
    rw [List.isEmpty_iff.1 hempty, List.dropWhile_cons_of_neg (by simp [hc]), List.nil_append]
  · rfl

theorem bne_of_not_mem (h : c ∉ cs) : ∀ d ∈ cs, (d != c) = true :=
  fun _ hd => bne_iff_ne.2 fun heq => h (heq ▸ hd)

/-! ### At the first -/

/-- A character in front of which nothing equals it stands where the text is split. -/
theorem splitAtFirst_append (h : c ∉ cs) : splitAtFirst c (cs ++ c :: rest) = (cs, rest) := by
  have hpos := bne_of_not_mem h
  rw [splitAtFirst, List.takeWhile_append_of_pos hpos, List.dropWhile_append_of_pos hpos]
  simp

/-- A character that occurs stands between the two sides of the split at it. -/
theorem eq_append_splitAtFirst (h : c ∈ cs) :
    cs = (splitAtFirst c cs).1 ++ c :: (splitAtFirst c cs).2 := by
  obtain ⟨first, rest, rfl, hfirst⟩ := List.eq_append_cons_of_mem h
  rw [splitAtFirst_append hfirst]

/-- Splitting loses no other character than the one at which the text is split. -/
theorem any_splitAtFirst (hp : p c = false) (cs : List Char) :
    ((splitAtFirst c cs).1 ++ (splitAtFirst c cs).2).any p = cs.any p := by
  by_cases h : c ∈ cs
  · obtain ⟨first, rest, rfl, hfirst⟩ := List.eq_append_cons_of_mem h
    rw [splitAtFirst_append hfirst, List.any_append, List.any_append, List.any_cons, hp,
      Bool.false_or]
  · have hpos := bne_of_not_mem h
    rw [splitAtFirst, List.takeWhile_eq_self_iff.2 hpos, List.dropWhile_eq_nil_iff.2 hpos,
      List.drop_nil, List.append_nil]

/-! ### At the last -/

/-- Without the character, what follows its last occurrence is the whole text. -/
theorem afterLast_of_not_mem (h : c ∉ cs) : afterLast c cs = cs := by
  have hpos := bne_of_not_mem (mt List.mem_reverse.1 h)
  rw [afterLast, List.takeWhile_eq_self_iff.2 hpos, List.reverse_reverse]

/-- What follows the last of a character does not depend on what stands in front of one of it. -/
theorem afterLast_append_cons (c : Char) (front back : List Char) :
    afterLast c (front ++ c :: back) = afterLast c back := by
  have hstop : (back.reverse ++ c :: front.reverse).takeWhile (· != c) =
      back.reverse.takeWhile (· != c) := by
    rw [List.takeWhile_append]
    split
    · next h => simp [(List.takeWhile_prefix _).eq_of_length h]
    · rfl
  rw [afterLast, afterLast, ← hstop]
  simp

end CurlWarden.Text
