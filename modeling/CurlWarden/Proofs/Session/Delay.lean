import CurlWarden.Proofs.Child.Ending
import CurlWarden.Proofs.Session.Fairness

/-!
# How long calls wait for their slots

Where no call holds its slot for longer than some time, the calls that come together get their slots
in rounds: the first as many as there are slots at once, and each later round no later than that
time after the round before (`IsFair.slot_time_le`). When the last call has ended, all slots are
free (`Gate.free_settle`).
-/

namespace CurlWarden

theorem Moment.time_after_le (m : Moment) {wait bound : Rat} (hwait : wait ≤ bound)
    (hbound : 0 ≤ bound) : (m.after wait).time ≤ m.time + bound := by
  rw [after]
  split
  · exact le_add_of_nonneg_right hbound
  · exact add_le_add_right hwait m.time

namespace Session

/-! ### Rounds -/

variable {capacity : Nat} {start now : Moment} {stays : List Stay} {bound : Rat}

/-- The calls of the rounds before have ended when a round begins. -/
theorem countP_isOpen_lt (hcapacity : 1 ≤ capacity) {i : Nat} (hi : i < stays.length)
    (hended : ∀ j (hj : j < i), j < capacity * (i / capacity) → ∀ t,
      start.time + (i / capacity : Nat) * bound ≤ t → stays[j].isOpen Moment.time t = false) :
    (stays.take i).countP (·.isOpen Moment.time (start.time + (i / capacity : Nat) * bound))
      < capacity := by
  have hround : capacity * (i / capacity) ≤ i := Nat.mul_div_le i capacity
  have hrest : i - capacity * (i / capacity) < capacity := by
    rw [← Nat.mod_eq_sub_mul_div]
    exact Nat.mod_lt _ hcapacity
  have hbefore : ((stays.take i).take (capacity * (i / capacity))).countP
      (·.isOpen Moment.time (start.time + (i / capacity : Nat) * bound)) = 0 := by
    apply List.countP_eq_zero.2
    intro stay hstay
    obtain ⟨j, hj, rfl⟩ := List.getElem_of_mem hstay
    simp only [List.length_take, List.getElem_take] at hj ⊢
    rw [hended j (by omega) (by omega) _ (le_refl _)]
    exact Bool.false_ne_true
  rw [← List.take_append_drop (capacity * (i / capacity)) (stays.take i), List.countP_append,
    hbefore, Nat.zero_add]
  apply List.countP_le_length.trans_lt
  rw [List.length_drop, List.length_take]
  omega

/-- Call number `i` gets its slot in round number `i / capacity`. -/
theorem IsFair.slot_time_le (h : IsFair Moment.time capacity start stays)
    (hcapacity : 1 ≤ capacity) (hbound : 0 ≤ bound)
    (hstay : ∀ stay ∈ stays, stay.finish.time ≤ stay.slot.time + bound) (i : Nat)
    (hi : i < stays.length) :
    stays[i].slot.time ≤ start.time + (i / capacity : Nat) * bound := by
  induction i using Nat.strongRecOn with
  | ind i ih =>
      apply (h.prompt i hi).2
      constructor
      · -- The predecessor got its slot in this round or in an earlier one.
        cases i with
        | zero =>
            simp [lastSlot]
        | succ j =>
            rw [List.take_succ_eq_append_getElem (by omega), lastSlot_append]
            apply (ih j (by omega) (by omega)).trans
            have hround : ((j / capacity : Nat) : Rat) ≤ ((j + 1) / capacity : Nat) := by
              exact_mod_cast Nat.div_le_div_right (Nat.le_succ j)
            have hmul := mul_le_mul_of_nonneg_right hround hbound
            linarith
      · -- Whoever got a slot in an earlier round has ended by now.
        apply countP_isOpen_lt hcapacity hi
        intro j hj hround t ht
        apply decide_eq_false
        rintro ⟨-, hopen⟩
        have hslot := ih j hj (by omega)
        have hfinish := hstay stays[j] (List.getElem_mem _)
        have hnext : ((j / capacity : Nat) : Rat) + 1 ≤ (i / capacity : Nat) := by
          exact_mod_cast (Nat.div_lt_iff_lt_mul hcapacity).2 (by rwa [Nat.mul_comm])
        have hmul := mul_le_mul_of_nonneg_right hnext hbound
        linarith

/-- A call that does not wait for longer than some time holds its slot for no longer. -/
theorem Gate.finish_time_le (slot : Moment) {wait : Option Rat}
    (hwait : ∀ w, wait = some w → w ≤ bound) (hbound : 0 ≤ bound) :
    (Gate.stay slot wait).finish.time ≤ (Gate.stay slot wait).slot.time + bound := by
  cases wait with
  | none => exact le_add_of_nonneg_right hbound
  | some w => exact slot.time_after_le (hwait w rfl) hbound

/-! ### When all have ended -/

namespace Gate

variable {ends : List Moment}

theorem lastEnd_cons (now m : Moment) (ends : List Moment) :
    lastEnd now (m :: ends) = lastEnd (if now.before m then m else now) ends := rfl

theorem stamp_le_later (now m : Moment) :
    now.stamp ≤ (if now.before m then m else now).stamp ∧
      m.stamp ≤ (if now.before m then m else now).stamp := by
  split
  · next hlater => exact ⟨(Moment.before_iff.1 hlater).le, le_refl _⟩
  · next hnot => exact ⟨le_refl _, Moment.not_before_iff.1 (Bool.eq_false_iff.2 hnot)⟩

theorem stamp_le_lastEnd (now : Moment) (ends : List Moment) :
    now.stamp ≤ (lastEnd now ends).stamp := by
  induction ends generalizing now with
  | nil => exact le_refl _
  | cons m ends ih =>
      rw [lastEnd_cons]
      exact (stamp_le_later now m).1.trans (ih _)

/-- No end comes after the last one. -/
theorem stamp_le_lastEnd_of_mem {m : Moment} (hm : m ∈ ends) :
    m.stamp ≤ (lastEnd now ends).stamp := by
  induction ends generalizing now with
  | nil => cases hm
  | cons n ends ih =>
      rw [lastEnd_cons]
      obtain rfl | hm := List.mem_cons.1 hm
      · exact (stamp_le_later now m).2.trans (stamp_le_lastEnd _ ends)
      · exact ih hm

/-- Once all calls have ended, all slots are free. -/
theorem free_settle (gate : Gate) (now : Moment) (ends : List Moment) :
    (gate.settle (lastEnd now ends) ends).free = gate.capacity := by
  have hnone : pending (lastEnd now ends) ends = [] := by
    apply List.filter_eq_nil_iff.2
    intro m hm
    rw [Bool.not_eq_true, Moment.not_before_iff]
    exact stamp_le_lastEnd_of_mem hm
  rw [settle, hnone, List.length_nil, Nat.sub_zero]

end Gate

end Session

end CurlWarden
