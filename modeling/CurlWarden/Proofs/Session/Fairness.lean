import CurlWarden.Session.Gate
import Mathlib.Algebra.Order.Field.Rat
import Mathlib.Data.List.Sort
import Mathlib.Data.Prod.Lex
import Mathlib.Order.Bounds.Basic

/-!
# The gate is safe, fair and never idle

What the schedule of a gate promises (`IsFair`): no more calls hold a slot than there are slots;
calls get their slots in order; and each gets its slot at the earliest moment, from its
predecessor's on, at which fewer calls before it are in progress than there are slots.

Moments can be told apart by their time alone, or also by the turn that is taken at that time. What
is promised holds either way: the proofs look at moments through a view that keeps their order
(`Moment.IsView`).

* `admission_isLeast` — where a call gets its slot.
* `IsFair.snoc` — the step lemma: one more call that gets its slot there.
* `isFair_schedule` — the run lemma.
-/

namespace CurlWarden

namespace Moment

/-- A moment, as its time and its turn. -/
def stamp (m : Moment) : Rat ×ₗ Nat := toLex (m.time, m.turn)

theorem before_iff {m n : Moment} : m.before n = true ↔ m.stamp < n.stamp := by
  simp [before, stamp, Prod.Lex.toLex_lt_toLex]

theorem not_before_iff {m n : Moment} : m.before n = false ↔ n.stamp ≤ m.stamp := by
  rw [← Bool.not_eq_true, before_iff, not_lt]

variable {α : Type} [LinearOrder α] {view : Moment → α}

/-- A way to look at moments that keeps their order, but may not tell all of them apart. -/
def IsView (view : Moment → α) : Prop := ∀ m n, view m < view n → m.stamp < n.stamp

theorem isView_time : IsView time := fun _ _ h => Prod.Lex.toLex_lt_toLex.2 (.inl h)

theorem isView_stamp : IsView stamp := fun _ _ h => h

theorem IsView.le (h : IsView view) {m n : Moment} (hle : m.stamp ≤ n.stamp) : view m ≤ view n :=
  not_lt.1 fun hlt => not_lt.2 hle (h n m hlt)

/-- No wait ends before it begins. -/
theorem stamp_le_after (m : Moment) (wait : Rat) : m.stamp ≤ (m.after wait).stamp := by
  rw [after]
  split
  · exact Prod.Lex.toLex_le_toLex.2 (.inr ⟨rfl, Nat.le_succ _⟩)
  · next hpos =>
    exact Prod.Lex.toLex_le_toLex.2 (.inl (lt_add_of_pos_right _ (not_le.1 hpos)))

end Moment

namespace Session

variable {α : Type} [LinearOrder α] {view : Moment → α} {capacity : Nat} {start now : Moment}
  {ends : List Moment} {past : List Stay}

/-! ### One call -/

namespace Gate

/-- The ends that are still to come, the first of them first. -/
def waiting (now : Moment) (ends : List Moment) : List Moment :=
  (pending now ends).mergeSort fun m n => !n.before m

theorem admission_eq : admission capacity now ends =
    if (waiting now ends).length < capacity then now
    else ((waiting now ends)[(waiting now ends).length - capacity]?).getD now := rfl

theorem stamp_lt_of_mem_waiting {m : Moment} (h : m ∈ waiting now ends) : now.stamp < m.stamp := by
  have hmem : m ∈ pending now ends := (List.mergeSort_perm _ _).mem_iff.1 h
  exact Moment.before_iff.1 (List.mem_filter.1 hmem).2

theorem pairwise_waiting (now : Moment) (ends : List Moment) :
    (waiting now ends).Pairwise fun m n => m.stamp ≤ n.stamp := by
  have hle : ∀ m n : Moment, (!n.before m) = true ↔ m.stamp ≤ n.stamp := by
    intro m n
    rw [Bool.not_eq_true', Moment.not_before_iff]
  have hsorted : (waiting now ends).Pairwise fun m n => (!n.before m) = true := by
    apply List.pairwise_mergeSort
    · intro m n o hmn hno
      rw [hle] at hmn hno ⊢
      exact hmn.trans hno
    · intro m n
      rw [Bool.or_eq_true, hle, hle]
      exact le_total _ _
  exact hsorted.imp fun h => (hle _ _).1 h

/-- From `now` on, the ends that are still to come are all that matter. -/
theorem countP_waiting (hview : Moment.IsView view) {t : α} (ht : view now ≤ t) :
    ends.countP (t < view ·) = (waiting now ends).countP (t < view ·) := by
  have hperm : (waiting now ends).Perm (pending now ends) := List.mergeSort_perm _ _
  rw [hperm.countP_eq, pending, List.countP_filter]
  apply List.countP_congr
  intro m _
  constructor
  · intro h
    have hlt : view now < view m := ht.trans_lt (of_decide_eq_true h)
    rw [Bool.and_eq_true]
    exact ⟨h, Moment.before_iff.2 (hview _ _ hlt)⟩
  · intro h
    exact (Bool.and_eq_true _ _ ▸ h).1

/-- If all slots are taken, one becomes free when all but `capacity - 1` of the calls in progress
have ended. -/
theorem exists_waiting_eq (hcapacity : 1 ≤ capacity)
    (hfull : ¬ (waiting now ends).length < capacity) :
    ∃ earlier later, waiting now ends = earlier ++ admission capacity now ends :: later ∧
      later.length + 1 = capacity := by
  have hindex : (waiting now ends).length - capacity < (waiting now ends).length := by omega
  have hslot : admission capacity now ends
      = (waiting now ends)[(waiting now ends).length - capacity] := by
    rw [admission_eq, if_neg hfull, List.getElem?_eq_getElem hindex, Option.getD_some]
  refine ⟨(waiting now ends).take ((waiting now ends).length - capacity),
    (waiting now ends).drop ((waiting now ends).length - capacity + 1), ?_, ?_⟩
  · rw [hslot, ← List.drop_eq_getElem_cons hindex, List.take_append_drop]
  · rw [List.length_drop]
    omega

/-- A call gets its slot at the earliest moment from `now` on at which fewer calls are in progress
than there are slots. -/
theorem admission_isLeast (hview : Moment.IsView view) (hcapacity : 1 ≤ capacity) :
    IsLeast {t | view now ≤ t ∧ ends.countP (t < view ·) < capacity}
      (view (admission capacity now ends)) := by
  by_cases hroom : (waiting now ends).length < capacity
  · have hnow : admission capacity now ends = now := by rw [admission_eq, if_pos hroom]
    rw [hnow]
    refine ⟨⟨le_refl _, ?_⟩, fun t ht => ht.1⟩
    rw [countP_waiting hview (le_refl _)]
    exact List.countP_le_length.trans_lt hroom
  · obtain ⟨earlier, later, hsplit, hlength⟩ := exists_waiting_eq hcapacity hroom
    generalize admission capacity now ends = slot at hsplit ⊢
    have hsorted := pairwise_waiting now ends
    rw [hsplit, List.pairwise_append, List.pairwise_cons] at hsorted
    obtain ⟨-, ⟨hlater, -⟩, hearlier⟩ := hsorted
    have hnow : view now ≤ view slot := by
      have hmem : slot ∈ waiting now ends := by
        rw [hsplit]
        exact List.mem_append_right _ (.head _)
      exact hview.le (stamp_lt_of_mem_waiting hmem).le
    refine ⟨⟨hnow, ?_⟩, ?_⟩
    · -- At the slot, only the calls that end later are in progress.
      have hover : ∀ m ∈ earlier ++ [slot], ¬ view slot < view m := by
        intro m hm
        obtain hm | hm := List.mem_append.1 hm
        · exact not_lt.2 (hview.le (hearlier m hm slot (.head _)))
        · rw [List.mem_singleton.1 hm]
          exact lt_irrefl _
      have hnone : (earlier ++ [slot]).countP (view slot < view ·) = 0 := by
        apply List.countP_eq_zero.2
        intro m hm
        rw [decide_eq_true_eq]
        exact hover m hm
      rw [countP_waiting hview hnow, hsplit, List.append_cons, List.countP_append, hnone, Nat.zero_add]
      have hle : later.countP (view slot < view ·) ≤ later.length := List.countP_le_length
      omega
    · -- Before it, that call and the later ones are.
      rintro t ⟨hle, hroom⟩
      by_contra hlt
      have hgoing : ∀ m ∈ slot :: later, t < view m := by
        intro m hm
        obtain rfl | hm := List.mem_cons.1 hm
        · exact not_le.1 hlt
        · exact (not_le.1 hlt).trans_le (hview.le (hlater m hm))
      have hall : (slot :: later).countP (t < view ·) = capacity := by
        rw [← hlength, ← List.length_cons (a := slot), List.countP_eq_length]
        intro m hm
        rw [decide_eq_true_eq]
        exact hgoing m hm
      rw [countP_waiting hview hle, hsplit, List.countP_append, hall] at hroom
      omega

theorem stamp_le_finish (slot : Moment) (wait : Option Rat) :
    slot.stamp ≤ (stay slot wait).finish.stamp := by
  cases wait with
  | none => exact le_refl _
  | some wait => exact slot.stamp_le_after wait

end Gate

/-! ### All calls -/

/-- Is a call in progress: has it got its slot, and not ended? -/
def Stay.isOpen (view : Moment → α) (t : α) (stay : Stay) : Bool :=
  view stay.slot ≤ t ∧ t < view stay.finish

/-- When the last of some calls got its slot; the start if there are none. -/
def lastSlot (start : Moment) (stays : List Stay) : Moment :=
  (stays.getLast?.map (·.slot)).getD start

/-- What is promised of calls that come together at `start`. -/
structure IsFair (view : Moment → α) (capacity : Nat) (start : Moment) (stays : List Stay) :
    Prop where
  /-- At no moment do more calls hold a slot than there are slots. -/
  safe : ∀ t, stays.countP (·.isOpen view t) ≤ capacity
  /-- Calls get their slots in order. -/
  ordered : stays.Pairwise fun a b => view a.slot ≤ view b.slot
  /-- A call gets its slot at the earliest moment, from its predecessor's on, at which fewer calls
  before it are in progress than there are slots. -/
  prompt : ∀ i (h : i < stays.length),
    IsLeast {t | view (lastSlot start (stays.take i)) ≤ t ∧
      (stays.take i).countP (·.isOpen view t) < capacity} (view stays[i].slot)
  /-- A call does not end before it gets its slot. -/
  forward : ∀ stay ∈ stays, view stay.slot ≤ view stay.finish

theorem lastSlot_append (start : Moment) (past : List Stay) (stay : Stay) :
    lastSlot start (past ++ [stay]) = stay.slot := by
  simp [lastSlot]

theorem isFair_nil (view : Moment → α) (capacity : Nat) (start : Moment) :
    IsFair view capacity start [] where
  safe := by simp
  ordered := .nil
  prompt := nofun
  forward := by simp

namespace IsFair

theorem slot_le_lastSlot (h : IsFair view capacity start past) :
    ∀ stay ∈ past, view stay.slot ≤ view (lastSlot start past) := by
  intro stay hstay
  obtain rfl | ⟨front, last, rfl⟩ := List.eq_nil_or_concat past
  · cases hstay
  · rw [List.concat_eq_append] at h hstay ⊢
    rw [lastSlot_append]
    obtain hfront | hlast := List.mem_append.1 hstay
    · exact (List.pairwise_append.1 h.ordered).2.2 stay hfront last (.head _)
    · rw [List.mem_singleton.1 hlast]

/-- After the last slot was given, a call is in progress until it ends. -/
theorem countP_isOpen (h : IsFair view capacity start past) {t : α}
    (ht : view (lastSlot start past) ≤ t) :
    past.countP (·.isOpen view t) = (past.map (·.finish)).countP (t < view ·) := by
  rw [List.countP_map]
  apply List.countP_congr
  intro stay hstay
  have hslot := (h.slot_le_lastSlot stay hstay).trans ht
  simp [Stay.isOpen, hslot]

/-- One more call, which gets its slot as early as it can. -/
theorem snoc (h : IsFair view capacity start past) {stay : Stay}
    (hslot : IsLeast {t | view (lastSlot start past) ≤ t ∧
      (past.map (·.finish)).countP (t < view ·) < capacity} (view stay.slot))
    (hforward : view stay.slot ≤ view stay.finish) :
    IsFair view capacity start (past ++ [stay]) where
  safe t := by
    rw [List.countP_append]
    by_cases hopen : stay.isOpen view t = true
    · have htime := of_decide_eq_true hopen
      obtain ⟨⟨hlast, hroom⟩, -⟩ := hslot
      have hpast := h.countP_isOpen (hlast.trans htime.1)
      -- Whoever is in progress now was in progress when this call got its slot.
      have hmono : (past.map (·.finish)).countP (t < view ·)
          ≤ (past.map (·.finish)).countP (view stay.slot < view ·) := by
        apply List.countP_mono_left
        intro m _ hm
        exact decide_eq_true (htime.1.trans_lt (of_decide_eq_true hm))
      rw [hpast, List.countP_singleton, if_pos hopen]
      omega
    · rw [List.countP_singleton, if_neg hopen, Nat.add_zero]
      exact h.safe t
  ordered := by
    apply List.pairwise_append.2
    refine ⟨h.ordered, List.pairwise_singleton _ _, ?_⟩
    intro earlier hearlier last hlast
    rw [List.mem_singleton.1 hlast]
    exact (h.slot_le_lastSlot earlier hearlier).trans hslot.1.1
  prompt i hi := by
    rw [List.length_append, List.length_singleton] at hi
    obtain hbefore | rfl := Nat.lt_succ_iff_lt_or_eq.1 hi
    · rw [List.take_append_of_le_length hbefore.le, List.getElem_append_left hbefore]
      exact h.prompt i hbefore
    · rw [List.take_left, List.getElem_concat_length rfl]
      have hset : {t | view (lastSlot start past) ≤ t ∧
            past.countP (·.isOpen view t) < capacity} =
          {t | view (lastSlot start past) ≤ t ∧
            (past.map (·.finish)).countP (t < view ·) < capacity} := by
        ext t
        constructor
        · rintro ⟨hlast, hroom⟩
          exact ⟨hlast, by rwa [← h.countP_isOpen hlast]⟩
        · rintro ⟨hlast, hroom⟩
          exact ⟨hlast, by rwa [h.countP_isOpen hlast]⟩
      rw [hset]
      exact hslot
  forward other hother := by
    obtain hpast | hlast := List.mem_append.1 hother
    · exact h.forward other hpast
    · rw [List.mem_singleton.1 hlast]
      exact hforward

end IsFair

/-- The stays of a schedule continue what is fair in a fair way. -/
theorem isFair_append_schedule (hview : Moment.IsView view) (hcapacity : 1 ≤ capacity)
    (h : IsFair view capacity start past) (waits : List (Option Rat)) :
    IsFair view capacity start (past ++
      Gate.schedule capacity (lastSlot start past) (past.map (·.finish)).reverse waits) := by
  -- By induction on the calls still to come; what is fair so far is the invariant.
  induction waits generalizing past with
  | nil =>
      rw [Gate.schedule, List.append_nil]
      exact h
  | cons wait waits ih =>
      have hslot : IsLeast {t | view (lastSlot start past) ≤ t ∧
            (past.map (·.finish)).reverse.countP (t < view ·) < capacity}
          (view (Gate.admission capacity (lastSlot start past)
            (past.map (·.finish)).reverse)) :=
        Gate.admission_isLeast hview hcapacity
      simp only [List.countP_reverse] at hslot
      have hforward := hview.le (Gate.stamp_le_finish
        (Gate.admission capacity (lastSlot start past) (past.map (·.finish)).reverse) wait)
      have hsnoc : IsFair view capacity start (past ++ [Gate.stay _ wait]) :=
        h.snoc hslot hforward
      have hrest := ih hsnoc
      rwa [lastSlot_append, List.map_append, List.map_singleton, List.reverse_append,
        List.reverse_singleton, ← List.append_cons] at hrest

/-- A gate treats all calls that come together fairly. -/
theorem isFair_schedule (hview : Moment.IsView view) (hcapacity : 1 ≤ capacity) (start : Moment)
    (waits : List (Option Rat)) :
    IsFair view capacity start (Gate.schedule capacity start [] waits) :=
  isFair_append_schedule hview hcapacity (isFair_nil view capacity start) waits

end Session

end CurlWarden
