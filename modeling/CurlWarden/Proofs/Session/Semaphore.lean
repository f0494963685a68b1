import CurlWarden.Proofs.Session.Fairness
import Mathlib.Logic.Relation

/-!
# The gate as a semaphore

A gate computes when each call gets its slot. Here it is described by what happens one thing after
another: a semaphore lends its slots to the first calls in the queue, and when nobody can get one,
time passes until a call ends and gives its slot back.

* `Step.keeps`, `keeps_of_run` — the step lemma and the run lemma for what a semaphore keeps
  (`Keeps`): no slot is lost, what was done is fair, and no time was lost while calls waited.
* `exists_run` — from every state that is kept, a run leads to the end.
* `stamps_eq` — a fair course is determined by how long the calls hold their slots.
* `run_stamps` — so every run to the end takes the course that the gate has computed.
-/

namespace CurlWarden.Session

/-- When a call gets its slot and when it ends, without what the clock shows. -/
def Stay.stamps (stay : Stay) : (Rat ×ₗ Nat) × (Rat ×ₗ Nat) := (stay.slot.stamp, stay.finish.stamp)

/-- The stays of calls that wait as given, each of which holds its slot for as long as it waits. -/
def Lasts (waits : List (Option Rat)) (stays : List Stay) : Prop :=
  List.Forall₂ (fun wait stay => stay = Gate.stay stay.slot wait) waits stays

theorem Gate.lasts_schedule (capacity : Nat) (now : Moment) (ends : List Moment)
    (waits : List (Option Rat)) : Lasts waits (schedule capacity now ends waits) := by
  induction waits generalizing now ends with
  | nil => exact .nil
  | cons wait waits ih => exact .cons rfl (ih _ _)

/-! ### A fair course is determined -/

section
variable {capacity : Nat} {start : Moment} {waits : List (Option Rat)} {stays others : List Stay}

/-- What matters of the calls so far are the moments at which they got their slots and ended. -/
theorem prompt_congr (h : stays.map (·.stamps) = others.map (·.stamps)) :
    {t | (lastSlot start stays).stamp ≤ t ∧ stays.countP (·.isOpen Moment.stamp t) < capacity} =
      {t | (lastSlot start others).stamp ≤ t ∧
        others.countP (·.isOpen Moment.stamp t) < capacity} := by
  have hlast : ∀ stays : List Stay, (lastSlot start stays).stamp =
      ((stays.map (·.stamps)).getLast?.map (·.1)).getD start.stamp := by
    intro stays
    rw [lastSlot, List.getLast?_map, Option.map_map]
    cases stays.getLast? <;> rfl
  have hopen : ∀ (stays : List Stay) (t : Rat ×ₗ Nat),
      stays.countP (·.isOpen Moment.stamp t) =
        (stays.map (·.stamps)).countP fun stamps => stamps.1 ≤ t ∧ t < stamps.2 := by
    intro stays t
    rw [List.countP_map]
    rfl
  simp only [hlast, hopen, h]

theorem stamp_after {m n : Moment} (h : m.stamp = n.stamp) (wait : Rat) :
    (m.after wait).stamp = (n.after wait).stamp := by
  obtain ⟨htime, hturn⟩ : m.time = n.time ∧ m.turn = n.turn := by
    simpa [Moment.stamp] using h
  simp only [Moment.after]
  split
  · simp [Moment.stamp, htime, hturn]
  · simp [Moment.stamp, htime]

/-- Calls that get their slots at the same moment and wait for the same time end together. -/
theorem stamps_stay {m n : Moment} (h : m.stamp = n.stamp) (wait : Option Rat) :
    (Gate.stay m wait).stamps = (Gate.stay n wait).stamps := by
  cases wait with
  | none => exact Prod.ext h h
  | some wait => exact Prod.ext h (stamp_after h wait)

/-- A fair course is determined by how long the calls hold their slots. -/
theorem stamps_eq (hstays : IsFair Moment.stamp capacity start stays)
    (hothers : IsFair Moment.stamp capacity start others) (hlasts : Lasts waits stays)
    (hlasts' : Lasts waits others) : stays.map (·.stamps) = others.map (·.stamps) := by
  have hlength : stays.length = others.length :=
    hlasts.length_eq.symm.trans hlasts'.length_eq
  have htake : ∀ i ≤ stays.length,
      (stays.take i).map (·.stamps) = (others.take i).map (·.stamps) := by
    intro i
    induction i with
    | zero => simp
    | succ i ih =>
        intro hi
        have hother : i < others.length := by omega
        have hslot : stays[i].slot.stamp = others[i].slot.stamp := by
          have hprompt := hstays.prompt i hi
          rw [prompt_congr (ih (by omega))] at hprompt
          exact hprompt.unique (hothers.prompt i hother)
        have hwait : i < waits.length := by
          rw [hlasts.length_eq]
          exact hi
        have hstay := hlasts.get hwait hi
        have hstay' := hlasts'.get hwait hother
        simp only [List.get_eq_getElem] at hstay hstay'
        rw [List.take_succ_eq_append_getElem hi, List.take_succ_eq_append_getElem hother,
          List.map_append, List.map_append, ih (by omega), List.map_singleton, List.map_singleton,
          hstay, hstay', stamps_stay hslot]
  have hall := htake stays.length (le_refl _)
  rwa [List.take_length, hlength, List.take_length] at hall

end

/-! ### The semaphore -/

/-- A counting semaphore with a queue, and the calls that share it. -/
structure Semaphore where
  now : Moment
  free : Nat
  /-- When the calls end that hold a slot. -/
  inside : List Moment
  /-- The stays of the calls that have got a slot so far. -/
  stays : List Stay
  /-- How long the calls that have not will wait for their children. -/
  queue : List (Option Rat)

namespace Semaphore

/-- All slots are free, and all calls are in the queue. -/
def ofCalls (capacity : Nat) (start : Moment) (waits : List (Option Rat)) : Semaphore :=
  ⟨start, capacity, [], [], waits⟩

/-- What happens next. -/
inductive Step : Semaphore → Semaphore → Prop where
  /-- The first call in the queue gets a slot. -/
  | acquire {now free inside stays wait queue} :
      Step ⟨now, free + 1, inside, stays, wait :: queue⟩
        ⟨now, free, (Gate.stay now wait).finish :: inside, stays ++ [Gate.stay now wait], queue⟩
  /-- No call can get a slot, so time passes until one of those inside ends. -/
  | release {now free inside stays queue m rest} (hblocked : free = 0 ∨ queue = [])
      (hinside : inside.Perm (m :: rest)) (hfirst : ∀ n ∈ rest, m.stamp ≤ n.stamp) :
      Step ⟨now, free, inside, stays, queue⟩ ⟨m, free + 1, rest, stays, queue⟩

abbrev Run : Semaphore → Semaphore → Prop := Relation.ReflTransGen Step

/-- All calls have got a slot and given it back. -/
def IsOver (semaphore : Semaphore) : Prop := semaphore.queue = [] ∧ semaphore.inside = []

/-- What a semaphore keeps. -/
structure Keeps (capacity : Nat) (start : Moment) (waits : List (Option Rat))
    (semaphore : Semaphore) : Prop where
  /-- No slot is lost. -/
  slots : semaphore.free + semaphore.inside.length = capacity
  /-- The calls that have got a slot are the first ones, and hold it for as long as they wait. -/
  served : ∃ served, waits = served ++ semaphore.queue ∧ Lasts served semaphore.stays
  fair : IsFair Moment.stamp capacity start semaphore.stays
  lastSlot : (lastSlot start semaphore.stays).stamp ≤ semaphore.now.stamp
  /-- Whoever is not inside any more has ended. -/
  ended : ∃ gone, (semaphore.stays.map (·.finish)).Perm (gone ++ semaphore.inside) ∧
    ∀ m ∈ gone, m.stamp ≤ semaphore.now.stamp
  /-- Whoever is inside has not ended before. -/
  going : ∀ m ∈ semaphore.inside, semaphore.now.stamp ≤ m.stamp
  /-- No time has passed since the last call got its slot, unless all slots were taken. -/
  busy : semaphore.queue ≠ [] → ∀ t, (Session.lastSlot start semaphore.stays).stamp ≤ t →
    t < semaphore.now.stamp → capacity ≤ (semaphore.stays.map (·.finish)).countP (t < ·.stamp)

variable {capacity : Nat} {start : Moment} {waits : List (Option Rat)} {semaphore next : Semaphore}

theorem keeps_ofCalls (capacity : Nat) (start : Moment) (waits : List (Option Rat)) :
    Keeps capacity start waits (ofCalls capacity start waits) where
  slots := rfl
  served := ⟨[], rfl, .nil⟩
  fair := isFair_nil _ _ _
  lastSlot := le_refl _
  ended := ⟨[], .nil, nofun⟩
  going := nofun
  busy _ _ hle hlt := absurd hlt (not_lt.2 hle)

namespace Keeps

/-- At every moment from now on, only calls that are inside are in progress. -/
theorem countP_le (h : Keeps capacity start waits semaphore) :
    (semaphore.stays.map (·.finish)).countP (semaphore.now.stamp < ·.stamp)
      ≤ semaphore.inside.length := by
  obtain ⟨gone, hperm, hgone⟩ := h.ended
  have hnone : gone.countP (semaphore.now.stamp < ·.stamp) = 0 := by
    apply List.countP_eq_zero.2
    intro m hm
    rw [decide_eq_true_eq]
    exact not_lt.2 (hgone m hm)
  rw [hperm.countP_eq, List.countP_append, hnone, Nat.zero_add]
  exact List.countP_le_length

/-- Until the first call inside ends, all of them are in progress. -/
theorem le_countP (h : Keeps capacity start waits semaphore) {t : Rat ×ₗ Nat}
    (ht : ∀ m ∈ semaphore.inside, t < m.stamp) :
    semaphore.inside.length ≤ (semaphore.stays.map (·.finish)).countP (t < ·.stamp) := by
  obtain ⟨gone, hperm, -⟩ := h.ended
  have hall : semaphore.inside.countP (t < ·.stamp) = semaphore.inside.length := by
    apply List.countP_eq_length.2
    intro m hm
    rw [decide_eq_true_eq]
    exact ht m hm
  rw [hperm.countP_eq, List.countP_append, hall]
  exact Nat.le_add_left _ _

end Keeps

/-- A semaphore keeps it whatever happens. -/
theorem Step.keeps (step : Step semaphore next) (h : Keeps capacity start waits semaphore) :
    Keeps capacity start waits next := by
  cases step with
  | @acquire now free inside stays wait queue =>
      have hslots : free + 1 + inside.length = capacity := h.slots
      have hcount := h.countP_le
      have hleast : IsLeast {t | (Session.lastSlot start stays).stamp ≤ t ∧
          (stays.map (·.finish)).countP (t < ·.stamp) < capacity} now.stamp := by
        refine ⟨⟨h.lastSlot, by simp only at hcount; omega⟩, ?_⟩
        -- Had there been room before, no time would have passed.
        rintro t ⟨hle, hroom⟩
        by_contra hlt
        exact absurd hroom (not_lt.2 (h.busy (by simp) t hle (not_le.1 hlt)))
      obtain ⟨served, hserved, hlasts⟩ := h.served
      obtain ⟨gone, hperm, hgone⟩ := h.ended
      refine ⟨?_, ⟨served ++ [wait], ?_, ?_⟩, h.fair.snoc hleast (Gate.stamp_le_finish now wait),
        ?_, ⟨gone, ?_, hgone⟩, ?_, ?_⟩
      · show free + (inside.length + 1) = capacity
        omega
      · rw [hserved, List.append_cons]
      · exact List.rel_append hlasts (.cons rfl .nil)
      · rw [lastSlot_append]
        exact le_refl _
      · rw [List.map_append, List.map_singleton]
        have hcons := (hperm.append_right [(Gate.stay now wait).finish])
        rw [List.append_assoc] at hcons
        exact hcons.trans (List.perm_append_comm.append_left gone)
      · intro m hm
        obtain rfl | hm := List.mem_cons.1 hm
        · exact Gate.stamp_le_finish now wait
        · exact h.going m hm
      · intro _ t hle hlt
        rw [lastSlot_append] at hle
        exact absurd hlt (not_lt.2 hle)
  | @release now free inside stays queue m rest hblocked hinside hfirst =>
      have hslots : free + inside.length = capacity := h.slots
      have hlength : inside.length = rest.length + 1 := hinside.length_eq
      have hmem : m ∈ inside := hinside.mem_iff.2 (.head _)
      have hnow : now.stamp ≤ m.stamp := h.going m hmem
      have hinsideLe : ∀ n ∈ inside, m.stamp ≤ n.stamp := by
        intro n hn
        obtain rfl | hrest := List.mem_cons.1 (hinside.mem_iff.1 hn)
        · exact le_refl _
        · exact hfirst n hrest
      obtain ⟨gone, hperm, hgone⟩ := h.ended
      refine ⟨?_, h.served, h.fair, h.lastSlot.trans hnow, ⟨gone ++ [m], ?_, ?_⟩, hfirst, ?_⟩
      · show free + 1 + rest.length = capacity
        omega
      · rw [← List.append_cons]
        exact hperm.trans (hinside.append_left gone)
      · intro n hn
        obtain hn | hn := List.mem_append.1 hn
        · exact (hgone n hn).trans hnow
        · rw [List.mem_singleton.1 hn]
      · intro hqueue t hle hlt
        -- Since calls still wait, all slots were taken until now.
        have hfree : free = 0 := hblocked.resolve_right hqueue
        by_cases hpast : t < now.stamp
        · exact h.busy hqueue t hle hpast
        · have hgoing := h.le_countP (t := t) fun n hn => hlt.trans_le (hinsideLe n hn)
          show capacity ≤ (stays.map (·.finish)).countP (t < ·.stamp)
          have hall : inside.length = capacity := by omega
          rw [← hall]
          exact hgoing

theorem keeps_of_run (h : Keeps capacity start waits semaphore) (run : Run semaphore next) :
    Keeps capacity start waits next := by
  induction run with
  | refl => exact h
  | tail _ step ih => exact step.keeps ih

/-! ### Runs -/

/-- One of the calls inside ends first. -/
theorem exists_first {inside : List Moment} (h : inside ≠ []) :
    ∃ m rest, inside.Perm (m :: rest) ∧ ∀ n ∈ rest, m.stamp ≤ n.stamp := by
  induction inside with
  | nil => exact absurd rfl h
  | cons a inside ih =>
      by_cases hnil : inside = []
      · subst hnil
        exact ⟨a, [], .refl _, nofun⟩
      · obtain ⟨m, rest, hperm, hfirst⟩ := ih hnil
        by_cases hle : a.stamp ≤ m.stamp
        · refine ⟨a, inside, .refl _, fun n hn => ?_⟩
          obtain rfl | hrest := List.mem_cons.1 (hperm.mem_iff.1 hn)
          · exact hle
          · exact hle.trans (hfirst n hrest)
        · refine ⟨m, a :: rest, (hperm.cons a).trans (.swap m a rest), fun n hn => ?_⟩
          obtain rfl | hrest := List.mem_cons.1 hn
          · exact (not_le.1 hle).le
          · exact hfirst n hrest

/-- Until all is over, something can happen. -/
theorem exists_step (h : Keeps capacity start waits semaphore) (hcapacity : 1 ≤ capacity)
    (hover : ¬ semaphore.IsOver) : ∃ next, Step semaphore next := by
  obtain ⟨now, free, inside, stays, queue⟩ := semaphore
  have hslots : free + inside.length = capacity := h.slots
  by_cases hacquire : free ≠ 0 ∧ queue ≠ []
  · obtain ⟨hfree, hqueue⟩ := hacquire
    obtain ⟨wait, rest, rfl⟩ := List.exists_cons_of_ne_nil hqueue
    obtain ⟨n, rfl⟩ := Nat.exists_eq_succ_of_ne_zero hfree
    exact ⟨_, .acquire⟩
  · have hblocked : free = 0 ∨ queue = [] := by
      by_contra hnot
      exact hacquire ⟨fun h => hnot (.inl h), fun h => hnot (.inr h)⟩
    have hinside : inside ≠ [] := by
      rintro rfl
      obtain hfree | hqueue := hblocked
      · rw [hfree, List.length_nil] at hslots
        omega
      · exact hover ⟨hqueue, rfl⟩
    obtain ⟨m, rest, hperm, hfirst⟩ := exists_first hinside
    exact ⟨_, .release hblocked hperm hfirst⟩

/-- Whatever happens, the end comes nearer. -/
def left (semaphore : Semaphore) : Nat := 2 * semaphore.queue.length + semaphore.inside.length

theorem Step.left_lt (step : Step semaphore next) : next.left < semaphore.left := by
  cases step with
  | acquire =>
      simp only [left, List.length_cons]
      omega
  | release _ hinside _ =>
      simp only [left, hinside.length_eq, List.length_cons]
      omega

/-- A run can be gone on with until all is over. -/
theorem exists_run (h : Keeps capacity start waits semaphore) (hcapacity : 1 ≤ capacity) :
    ∃ final, Run semaphore final ∧ final.IsOver := by
  induction hleft : semaphore.left using Nat.strongRecOn generalizing semaphore with
  | ind n ih =>
      by_cases hover : semaphore.IsOver
      · exact ⟨semaphore, .refl, hover⟩
      · obtain ⟨next, step⟩ := exists_step h hcapacity hover
        obtain ⟨final, run, hfinal⟩ := ih next.left (hleft ▸ step.left_lt) (step.keeps h) rfl
        exact ⟨final, run.head step, hfinal⟩

/-- Every run to the end takes the course that the gate has computed, and gives all slots back. -/
theorem run_stamps (hcapacity : 1 ≤ capacity) {final : Semaphore}
    (run : Run (ofCalls capacity start waits) final) (hover : final.IsOver) :
    final.free = capacity ∧
      final.stays.map (·.stamps) = (Gate.schedule capacity start [] waits).map (·.stamps) := by
  have hkeeps := keeps_of_run (keeps_ofCalls capacity start waits) run
  obtain ⟨hqueue, hinside⟩ := hover
  obtain ⟨served, hserved, hlasts⟩ := hkeeps.served
  rw [hqueue, List.append_nil] at hserved
  subst hserved
  refine ⟨?_, stamps_eq hkeeps.fair (isFair_schedule Moment.isView_stamp hcapacity start waits)
    hlasts (Gate.lasts_schedule _ _ _ _)⟩
  have hslots := hkeeps.slots
  rwa [hinside, List.length_nil, Nat.add_zero] at hslots

end Semaphore

end CurlWarden.Session
