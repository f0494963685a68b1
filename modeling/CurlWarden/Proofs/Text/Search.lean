import CurlWarden.Text.Search

/-!
# Where a search stops

A search tries one place after the other. Here its answer is described by where it stands in the
text: nothing that counts stands further left.

* `firstMatch_eq_some_iff` — the answer of a matcher at the leftmost place that gives one.
* `occurs_iff` — a mark occurs where it is a part of the text.
* `before?_eq_some_iff` — the text before a mark is the shortest one that the mark follows.
-/

namespace CurlWarden.Text

variable {α : Type} {matcher : List Char → Option α} {mark cs : List Char}

/-- The answer is the one at the leftmost place that gives one. -/
theorem firstMatch_eq_some_iff {answer : α} : firstMatch matcher cs = some answer ↔
    ∃ before here, cs = before ++ here ∧ matcher here = some answer ∧
      ∀ earlier there, cs = earlier ++ there → earlier.length < before.length →
        matcher there = none := by
  induction cs with
  | nil =>
      constructor
      · intro h
        exact ⟨[], [], rfl, h, fun _ _ _ hlength => absurd hlength (Nat.not_lt_zero _)⟩
      · rintro ⟨before, here, hsplit, hhere, -⟩
        obtain ⟨rfl, rfl⟩ := List.append_eq_nil_iff.1 hsplit.symm
        exact hhere
  | cons c cs ih =>
      rw [firstMatch]
      cases hfirst : matcher (c :: cs) with
      | some first =>
          constructor
          · intro h
            refine ⟨[], c :: cs, rfl, hfirst.trans h, fun _ _ _ hlength => ?_⟩
            exact absurd hlength (Nat.not_lt_zero _)
          · rintro ⟨before, here, hsplit, hhere, hearlier⟩
            cases before with
            | nil =>
                obtain rfl : c :: cs = here := hsplit
                exact hfirst.symm.trans hhere
            | cons d before =>
                have hnone := hearlier [] (c :: cs) rfl (Nat.succ_pos _)
                rw [hfirst] at hnone
                cases hnone
      | none =>
          rw [ih]
          constructor
          · rintro ⟨before, here, rfl, hhere, hearlier⟩
            refine ⟨c :: before, here, rfl, hhere, fun earlier there hsplit hlength => ?_⟩
            cases earlier with
            | nil =>
                obtain rfl : c :: (before ++ here) = there := hsplit
                exact hfirst
            | cons d earlier =>
                have hcs := (List.cons.inj hsplit).2
                exact hearlier earlier there hcs (Nat.lt_of_succ_lt_succ hlength)
          · rintro ⟨before, here, hsplit, hhere, hearlier⟩
            cases before with
            | nil =>
                obtain rfl : c :: cs = here := hsplit
                rw [hfirst] at hhere
                cases hhere
            | cons d before =>
                obtain ⟨rfl, rfl⟩ := List.cons.inj hsplit
                exact ⟨before, here, rfl, hhere, fun earlier there hcs hlength =>
                  hearlier (c :: earlier) there (by rw [hcs]; rfl) (Nat.succ_lt_succ hlength)⟩

/-- A matcher that answers at some place is found to answer. -/
theorem firstMatch_ne_none {before here : List Char} {answer : α}
    (h : matcher here = some answer) : firstMatch matcher (before ++ here) ≠ none := by
  induction before with
  | nil => cases here <;> simp [firstMatch, h]
  | cons c before ih =>
      rw [List.cons_append, firstMatch]
      cases matcher (c :: (before ++ here)) with
      | none => exact ih
      | some first => exact nofun

theorem isSome_after?_iff : (after? mark cs).isSome = true ↔ mark <+: cs := by
  rw [Option.isSome_iff_exists]
  refine exists_congr fun rest => ?_
  rw [after?_eq_some_iff, eq_comm]

/-- A mark occurs where it is a part of the text. -/
theorem occurs_iff : occurs mark cs = true ↔ mark <:+: cs := by
  induction cs with
  | nil => rw [occurs, firstMatch, isSome_after?_iff, List.prefix_nil, List.infix_nil]
  | cons c cs ih =>
      rw [List.infix_cons_iff, ← ih, ← isSome_after?_iff, occurs, occurs, firstMatch]
      cases after? mark (c :: cs) <;> simp

/-! ### The text before a mark -/

theorem beforeFrom_eq_map (read : List Char) :
    beforeFrom mark read cs = (before? mark cs).map (read.reverse ++ ·) := by
  have hgo : ∀ read more : List Char, beforeFrom mark (read ++ more) cs =
      (beforeFrom mark read cs).map (more.reverse ++ ·) := by
    induction cs with
    | nil =>
        intro read more
        rw [beforeFrom, beforeFrom]
        split <;> simp
    | cons c cs ih =>
        intro read more
        rw [beforeFrom, beforeFrom]
        split
        · simp
        · exact ih (c :: read) more
  exact hgo [] read

theorem before?_cons {c : Char} : before? mark (c :: cs) =
    if mark <+: c :: cs then some [] else (before? mark cs).map (c :: ·) := by
  rw [before?, beforeFrom, beforeFrom_eq_map]
  simp only [isSome_after?_iff, List.reverse_nil, List.reverse_singleton, List.singleton_append]

/-- Nothing stands before a mark that does not occur. -/
theorem before?_eq_none_iff : before? mark cs = none ↔ ¬ mark <:+: cs := by
  induction cs with
  | nil =>
      rw [List.infix_nil, before?, beforeFrom]
      cases mark <;> simp
  | cons c cs ih =>
      rw [before?_cons, List.infix_cons_iff]
      by_cases hhere : mark <+: c :: cs
      · simp [hhere]
      · simp [hhere, ih]

/-- The mark occurs after `before`, and no further left. -/
structure OccursFirst (mark cs before after : List Char) : Prop where
  text : cs = before ++ mark ++ after
  first : ∀ earlier rest, cs = earlier ++ mark ++ rest → before.length ≤ earlier.length

theorem OccursFirst.unique {before after before' after' : List Char}
    (h : OccursFirst mark cs before after) (h' : OccursFirst mark cs before' after') :
    before = before' := by
  have hlength := Nat.le_antisymm (h.first _ _ h'.text) (h'.first _ _ h.text)
  have htext := h.text.symm.trans h'.text
  rw [List.append_assoc, List.append_assoc] at htext
  exact (List.append_inj htext hlength).1

theorem exists_occursFirst_of_before? {before : List Char} (h : before? mark cs = some before) :
    ∃ after, OccursFirst mark cs before after := by
  induction cs generalizing before with
  | nil =>
      rw [before?, beforeFrom] at h
      split at h
      · next hempty =>
        obtain rfl := List.isEmpty_iff.1 hempty
        obtain rfl := Option.some.inj h
        exact ⟨[], rfl, fun _ _ _ => Nat.zero_le _⟩
      · cases h
  | cons c cs ih =>
      rw [before?_cons] at h
      split at h
      · next hhere =>
        obtain ⟨after, hafter⟩ := hhere
        obtain rfl := Option.some.inj h
        exact ⟨after, hafter.symm, fun _ _ _ => Nat.zero_le _⟩
      · next hhere =>
        obtain ⟨before, hbefore, rfl⟩ := Option.map_eq_some_iff.1 h
        obtain ⟨after, rfl, hfirst⟩ := ih hbefore
        refine ⟨after, rfl, fun earlier rest hsplit => ?_⟩
        cases earlier with
        | nil => exact absurd ⟨rest, hsplit.symm⟩ hhere
        | cons d earlier => exact Nat.succ_le_succ (hfirst _ _ (List.cons.inj hsplit).2)

theorem before?_eq_some_iff {before : List Char} :
    before? mark cs = some before ↔ ∃ after, OccursFirst mark cs before after := by
  refine ⟨exists_occursFirst_of_before?, ?_⟩
  rintro ⟨after, h⟩
  cases hfound : before? mark cs with
  | none => exact absurd ⟨before, after, h.text.symm⟩ (before?_eq_none_iff.1 hfound)
  | some found =>
      obtain ⟨_, hfirst⟩ := exists_occursFirst_of_before? hfound
      rw [hfirst.unique h]

/-! ### Searching a list -/

/-- What answers nothing need not be searched. -/
theorem findSome?_filter {β : Type} {p : α → Bool} {f : α → Option β} {l : List α}
    (h : ∀ a ∈ l, p a = false → f a = none) : (l.filter p).findSome? f = l.findSome? f := by
  induction l with
  | nil => rfl
  | cons a l ih =>
      have hrest := ih fun b hb => h b (.tail _ hb)
      cases hp : p a with
      | true => rw [List.filter_cons_of_pos hp, List.findSome?_cons, List.findSome?_cons, hrest]
      | false =>
          rw [List.filter_cons_of_neg (by simp [hp]), List.findSome?_cons, h a (.head _) hp, hrest]

end CurlWarden.Text
