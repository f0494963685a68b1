import CurlWarden.Child.Run
import Mathlib.Algebra.Order.BigOperators.Group.List
import Mathlib.Algebra.Order.Field.Rat
import Mathlib.Order.Bounds.Basic
import Mathlib.Tactic.Linarith
import Mathlib.Tactic.NormNum

/-!
# How a run ends

Three moments decide how the run of a started child ends: the first at which it has written too
much (`Script.Floods`), the one at which it is done, and the one at which its time is up. Here they
are described without the functions that compute them, and times are compared with the timeout as
exact numbers (`Binary64.Exceeds`).

* `overflow?_eq_some_iff` — the search among the arrivals finds the first moment of all.
* `ending_of_floods`, `ending_of_isDoneAt`, `ending_of_late` — the ending, from the order of the three.
* `wait?_le` — no run takes longer than its timeout.
* `stop_ne_unneeded_iff` — which children are killed.
-/

namespace CurlWarden

namespace Binary64

variable {x : Binary64} {q : Rat}

/-- Does `x` stand for something above `q`? The positive infinity is above every number, and what is
no number is above none. -/
def Exceeds (x : Binary64) (q : Rat) : Prop :=
  (x.isInfinite = true ∧ x.isNegative = false) ∨ (x.isFinite = true ∧ q < x.toRat)

theorem magnitude_nonneg (x : Binary64) :
    0 ≤ mkRat (x.significand * Nat.pow 2 x.scale) (Nat.pow 2 1074) := by
  apply Rat.mkRat_nonneg
  exact Int.mul_nonneg (Int.natCast_nonneg _) (Int.natCast_nonneg _)

theorem toRat_nonneg (h : x.isNegative = false) : 0 ≤ x.toRat := by
  simp only [toRat, h, Bool.false_eq_true, if_false]
  split
  · exact magnitude_nonneg x
  · exact le_refl 0

theorem toRat_nonpos (h : x.isPositive = false) : x.toRat ≤ 0 := by
  cases hfinite : x.isFinite with
  | false => simp only [toRat, hfinite, Bool.false_eq_true, if_false, le_refl]
  | true =>
      cases hnegative : x.isNegative with
      | true =>
          simp only [toRat, hfinite, hnegative, if_true]
          exact neg_nonpos.2 (magnitude_nonneg x)
      | false =>
          have hword : x.word = 0 := by
            simp only [isFinite, decide_eq_true_eq] at hfinite
            simp only [isPositive, hnegative, isNaN, Bool.not_false, Bool.true_and,
              Bool.and_eq_false_iff, Bool.not_eq_false', decide_eq_true_eq,
              bne_eq_false_iff_eq] at h
            omega
          have hsignificand : x.significand = 0 := by
            rw [significand, hword]
            rfl
          simp only [toRat, hfinite, hnegative, hsignificand, Bool.false_eq_true, if_false, if_true,
            Nat.cast_zero, zero_mul, Rat.zero_mkRat, le_refl]

/-- Above a number that is not negative are the positive numbers, as far as they are. -/
theorem exceeds_iff (hq : 0 ≤ q) :
    x.Exceeds q ↔ x.isPositive = true ∧ (x.isFinite = true → q < x.toRat) := by
  constructor
  · rintro (⟨hinfinite, hnegative⟩ | ⟨hfinite, hlt⟩)
    · have hword : x.word = infinityWord := by simpa [isInfinite] using hinfinite
      have hinfinity : infinityWord ≠ 0 := by decide
      refine ⟨?_, fun hfinite => ?_⟩
      · simp [isPositive, isNaN, hnegative, hword, hinfinity]
      · simp [isFinite, hword] at hfinite
    · refine ⟨?_, fun _ => hlt⟩
      cases hpositive : x.isPositive with
      | true => rfl
      | false => exact absurd (toRat_nonpos hpositive) (not_le.2 (hq.trans_lt hlt))
  · rintro ⟨hpositive, hlt⟩
    cases hfinite : x.isFinite with
    | true => exact .inr ⟨hfinite, hlt hfinite⟩
    | false =>
        simp only [isPositive, Bool.and_eq_true, Bool.not_eq_true', isNaN,
          decide_eq_false_iff_not] at hpositive
        simp only [isFinite, decide_eq_false_iff_not] at hfinite
        refine .inl ⟨?_, hpositive.1.1⟩
        simp only [isInfinite, beq_iff_eq]
        omega

end Binary64

theorem seconds_lt_seconds {m n : Nat} : seconds m < seconds n ↔ m < n := by
  have h : (0 : Rat) < 1000 := by norm_num
  rw [seconds, seconds, Rat.mkRat_eq_div, Rat.mkRat_eq_div]
  simp [div_lt_div_iff_of_pos_right]

theorem seconds_le_seconds {m n : Nat} : seconds m ≤ seconds n ↔ m ≤ n := by
  rw [← not_lt, seconds_lt_seconds, not_lt]

theorem seconds_inj {m n : Nat} : seconds m = seconds n ↔ m = n := by
  rw [le_antisymm_iff, le_antisymm_iff, seconds_le_seconds, seconds_le_seconds]

theorem seconds_zero : seconds 0 = 0 := rfl

theorem seconds_nonneg (n : Nat) : 0 ≤ seconds n := Rat.mkRat_nonneg (Int.natCast_nonneg n) _

namespace Child

variable {limits : Limits} {script : Script} {limit : Int} {time : Nat}

/-! ### The deadline -/

theorem deadline?_of_isFinite (h : limits.timeout.isFinite = true) :
    deadline? limits = some (max limits.timeout.toRat 0) := by
  rw [deadline?, if_pos h]
  split
  · next hpositive =>
    have hnegative : limits.timeout.isNegative = false := by
      simp only [Binary64.isPositive, Bool.and_eq_true, Bool.not_eq_true'] at hpositive
      exact hpositive.1.1
    rw [max_eq_left (Binary64.toRat_nonneg hnegative)]
  · next hpositive =>
    rw [max_eq_right (Binary64.toRat_nonpos (Bool.eq_false_iff.2 hpositive))]

theorem deadline?_nonneg {deadline : Rat} (h : deadline? limits = some deadline) :
    0 ≤ deadline := by
  unfold deadline? at h
  split at h
  · next hpositive =>
    split at h
    · obtain rfl := Option.some.inj h
      simp only [Binary64.isPositive, Bool.and_eq_true, Bool.not_eq_true'] at hpositive
      exact Binary64.toRat_nonneg hpositive.1.1
    · cases h
  · obtain rfl := Option.some.inj h
    exact le_refl 0

/-- Where not even the start comes before the timeout, the time is up at once. -/
theorem deadline?_of_not_exceeds (h : ¬ limits.timeout.Exceeds 0) : deadline? limits = some 0 := by
  have hstart : ¬ (limits.timeout.isPositive = true ∧
      (limits.timeout.isFinite = true → 0 < limits.timeout.toRat)) :=
    fun hboth => h ((Binary64.exceeds_iff (le_refl 0)).2 hboth)
  rw [deadline?]
  split
  · next hpositive =>
    rw [not_and, Classical.not_imp] at hstart
    obtain ⟨hfinite, hzero⟩ := hstart hpositive
    have hnegative : limits.timeout.isNegative = false := by
      simp only [Binary64.isPositive, Bool.and_eq_true, Bool.not_eq_true'] at hpositive
      exact hpositive.1.1
    rw [if_pos hfinite]
    exact congrArg some (le_antisymm (not_lt.1 hzero) (Binary64.toRat_nonneg hnegative))
  · rfl

/-- What comes before the timeout comes before the deadline, and there is time at all. -/
theorem exceeds_seconds_iff : limits.timeout.Exceeds (seconds time) ↔
    limits.timeout.isPositive = true ∧
      ∀ deadline, deadline? limits = some deadline → seconds time < deadline := by
  rw [Binary64.exceeds_iff (seconds_nonneg time)]
  constructor
  · rintro ⟨hpositive, hlt⟩
    refine ⟨hpositive, fun deadline h => ?_⟩
    rw [deadline?, if_pos hpositive] at h
    split at h
    · next hfinite =>
      obtain rfl := Option.some.inj h
      exact hlt hfinite
    · cases h
  · rintro ⟨hpositive, hlt⟩
    refine ⟨hpositive, fun hfinite => hlt _ ?_⟩
    rw [deadline?, if_pos hpositive, if_pos hfinite]

theorem inTime?_eq_some_iff {moment : Option Nat} : inTime? limits moment = some time ↔
    moment = some time ∧ limits.timeout.Exceeds (seconds time) := by
  rw [inTime?, Option.filter_eq_some_iff, exceeds_seconds_iff, Bool.and_eq_true]
  cases deadline? limits with
  | none => simp
  | some deadline => simp

/-! ### Too much output -/

/-- At `time` more than `limit` bytes have arrived for the first time. Nothing at all is never too
much: only a byte that arrives is held against the limit. -/
def Script.Floods (script : Script) (limit : Int) (time : Nat) : Prop :=
  IsLeast {t | 0 < script.written t ∧ limit < script.written t} time

theorem written_eq_sum (script : Script) (time : Nat) : script.written time =
    (script.chunks.map fun chunk => if chunk.time ≤ time then chunk.bytes.length else 0).sum := by
  rw [Script.written, ← List.sum_eq_foldr]
  induction script.chunks with
  | nil => rfl
  | cons chunk chunks ih =>
      by_cases h : chunk.time ≤ time
      · simp [h, ih]
      · simp [h, ih]

theorem exists_chunk_of_written_pos (h : 0 < script.written time) :
    ∃ chunk ∈ script.chunks, chunk.bytes ≠ [] ∧ chunk.time ≤ time := by
  rw [written_eq_sum] at h
  obtain ⟨n, hn, hpos⟩ := List.sum_pos_iff_exists_pos_nat.1 h
  obtain ⟨chunk, hchunk, rfl⟩ := List.mem_map.1 hn
  split at hpos
  · next htime => exact ⟨chunk, hchunk, List.length_pos_iff.1 hpos, htime⟩
  · cases hpos

theorem written_pos {chunk : Chunk} (hchunk : chunk ∈ script.chunks) (hbytes : chunk.bytes ≠ []) :
    0 < script.written chunk.time := by
  rw [written_eq_sum]
  apply List.sum_pos_iff_exists_pos_nat.2
  refine ⟨_, List.mem_map.2 ⟨chunk, hchunk, rfl⟩, ?_⟩
  simpa using List.length_pos_iff.2 hbytes

/-- All that has arrived by some moment had arrived with the last chunk that was not empty. -/
theorem exists_arrival (h : 0 < script.written time) :
    ∃ chunk ∈ script.chunks, chunk.bytes ≠ [] ∧ chunk.time ≤ time ∧
      script.written chunk.time = script.written time := by
  -- At each moment either a chunk arrives, or all is as it was at the moment before.
  induction time with
  | zero =>
      obtain ⟨chunk, hchunk, hbytes, htime⟩ := exists_chunk_of_written_pos h
      obtain hzero : chunk.time = 0 := Nat.le_zero.1 htime
      exact ⟨chunk, hchunk, hbytes, htime, by rw [hzero]⟩
  | succ time ih =>
      by_cases hnow : ∃ chunk ∈ script.chunks, chunk.bytes ≠ [] ∧ chunk.time = time + 1
      · obtain ⟨chunk, hchunk, hbytes, htime⟩ := hnow
        exact ⟨chunk, hchunk, hbytes, htime.le, by rw [htime]⟩
      · have hsame : script.written (time + 1) = script.written time := by
          rw [written_eq_sum, written_eq_sum]
          congr 1
          apply List.map_congr_left
          intro chunk hchunk
          by_cases htime : chunk.time = time + 1
          · have hempty : chunk.bytes = [] := by
              by_contra hbytes
              exact hnow ⟨chunk, hchunk, hbytes, htime⟩
            simp [hempty]
          · have hiff : chunk.time ≤ time + 1 ↔ chunk.time ≤ time := by omega
            simp only [hiff]
        rw [hsame] at h ⊢
        obtain ⟨chunk, hchunk, hbytes, htime, hwritten⟩ := ih h
        exact ⟨chunk, hchunk, hbytes, htime.trans (Nat.le_succ _), hwritten⟩

/-- The search among the arrivals finds the first moment of all. -/
theorem overflow?_eq_some_iff :
    script.overflow? limit = some time ↔ script.Floods limit time := by
  have harrival : ∀ t, t ∈ ((script.chunks.filter (!·.bytes.isEmpty)).map (·.time)).filter
      (fun t => decide (limit < script.written t)) ↔
      (∃ chunk ∈ script.chunks, chunk.bytes ≠ [] ∧ chunk.time = t) ∧ limit < script.written t := by
    intro t
    simp [and_assoc]
  rw [Script.overflow?, List.min?_eq_some_iff, harrival]
  constructor
  · -- The first arrival that is too much is the first moment that is: what is too much at some
    -- moment was so when the last chunk before it arrived.
    rintro ⟨⟨⟨chunk, hchunk, hbytes, rfl⟩, hover⟩, hfirst⟩
    refine ⟨⟨written_pos hchunk hbytes, hover⟩, ?_⟩
    rintro t ⟨hpos, ht⟩
    obtain ⟨arrival, harr, hnonempty, hle, hwritten⟩ := exists_arrival hpos
    have hmem := hfirst arrival.time ((harrival _).2 ⟨⟨arrival, harr, hnonempty, rfl⟩, by
      rwa [hwritten]⟩)
    exact hmem.trans hle
  · rintro ⟨⟨hpos, hover⟩, hfirst⟩
    obtain ⟨arrival, harr, hnonempty, hle, hwritten⟩ := exists_arrival hpos
    have hge : time ≤ arrival.time :=
      hfirst ⟨written_pos harr hnonempty, by rwa [hwritten]⟩
    refine ⟨⟨⟨arrival, harr, hnonempty, le_antisymm hle hge⟩, hover⟩, ?_⟩
    intro t ht
    obtain ⟨⟨chunk, hchunk, hbytes, rfl⟩, hlimit⟩ := (harrival t).1 ht
    exact hfirst ⟨written_pos hchunk hbytes, hlimit⟩

theorem exists_floods (hpos : 0 < script.written time) (hover : limit < script.written time) :
    ∃ first ≤ time, script.Floods limit first := by
  have hex : ∃ t, 0 < script.written t ∧ limit < script.written t := ⟨time, hpos, hover⟩
  refine ⟨Nat.find hex, Nat.find_min' hex ⟨hpos, hover⟩, Nat.find_spec hex, ?_⟩
  intro t ht
  exact Nat.find_min' hex ht

/-! ### The end of a run -/

/-- The child is done: both streams are closed and it has exited, the later of the two at `time`. -/
def Script.IsDoneAt (script : Script) (time : Nat) : Prop :=
  ∃ closes exits, script.closes = some closes ∧ script.exits = some exits ∧
    time = max closes exits

theorem done?_eq_some_iff : script.done? = some time ↔ script.IsDoneAt time := by
  unfold Script.done?
  constructor
  · intro h
    split at h
    · next closes exits hcloses hexits =>
      exact ⟨closes, exits, hcloses, hexits, (Option.some.inj h).symm⟩
    · cases h
  · rintro ⟨closes, exits, hcloses, hexits, rfl⟩
    rw [hcloses, hexits]

/-- Does the child write too much before its time is up? -/
def IsFlooded (limits : Limits) (script : Script) : Prop :=
  ∃ time, script.Floods limits.maxOutputBytes time ∧ limits.timeout.Exceeds (seconds time)

theorem ending_of_floods (hstart : script.start = .started)
    (hfloods : script.Floods limits.maxOutputBytes time)
    (htime : limits.timeout.Exceeds (seconds time)) :
    ending limits script = .overflowed time := by
  have hin := inTime?_eq_some_iff.2 ⟨overflow?_eq_some_iff.2 hfloods, htime⟩
  simp only [ending, hstart, hin]

theorem inTime?_overflow?_eq_none (h : ¬ IsFlooded limits script) :
    inTime? limits (script.overflow? limits.maxOutputBytes) = none := by
  apply Option.eq_none_iff_forall_ne_some.2
  intro time hin
  obtain ⟨hoverflow, htime⟩ := inTime?_eq_some_iff.1 hin
  exact h ⟨time, overflow?_eq_some_iff.1 hoverflow, htime⟩

theorem ending_of_isDoneAt (hstart : script.start = .started) (hquiet : ¬ IsFlooded limits script)
    (hdone : script.IsDoneAt time) (htime : limits.timeout.Exceeds (seconds time)) :
    ending limits script = .finished time := by
  have hin := inTime?_eq_some_iff.2 ⟨done?_eq_some_iff.2 hdone, htime⟩
  simp only [ending, hstart, inTime?_overflow?_eq_none hquiet, hin]

theorem ending_of_late (hstart : script.start = .started) (hquiet : ¬ IsFlooded limits script)
    (hlate : ∀ time, script.IsDoneAt time → ¬ limits.timeout.Exceeds (seconds time)) :
    ending limits script = .timedOut := by
  have hnone : inTime? limits script.done? = none := by
    apply Option.eq_none_iff_forall_ne_some.2
    intro time hin
    obtain ⟨hdone, htime⟩ := inTime?_eq_some_iff.1 hin
    exact hlate time (done?_eq_some_iff.1 hdone) htime
  simp only [ending, hstart, inTime?_overflow?_eq_none hquiet, hnone]

/-- Everything that can become of a child that was started. -/
theorem ending_cases (hstart : script.start = .started) :
    (∃ time, script.Floods limits.maxOutputBytes time ∧ limits.timeout.Exceeds (seconds time) ∧
      ending limits script = .overflowed time) ∨
    ¬ IsFlooded limits script ∧
      ((∃ time, script.IsDoneAt time ∧ limits.timeout.Exceeds (seconds time) ∧
        ending limits script = .finished time) ∨
      (∀ time, script.IsDoneAt time → ¬ limits.timeout.Exceeds (seconds time)) ∧
        ending limits script = .timedOut) := by
  by_cases hflooded : IsFlooded limits script
  · obtain ⟨time, hfloods, htime⟩ := hflooded
    exact .inl ⟨time, hfloods, htime, ending_of_floods hstart hfloods htime⟩
  · refine .inr ⟨hflooded, ?_⟩
    by_cases hdone : ∃ time, script.IsDoneAt time ∧ limits.timeout.Exceeds (seconds time)
    · obtain ⟨time, hdone, htime⟩ := hdone
      exact .inl ⟨time, hdone, htime, ending_of_isDoneAt hstart hflooded hdone htime⟩
    · have hlate : ∀ time, script.IsDoneAt time → ¬ limits.timeout.Exceeds (seconds time) :=
        fun time h htime => hdone ⟨time, h, htime⟩
      exact .inr ⟨hlate, ending_of_late hstart hflooded hlate⟩

/-- A child finishes when it is done, if it is done in time and has not written too much. -/
theorem ending_eq_finished_iff : ending limits script = .finished time ↔
    script.start = .started ∧ ¬ IsFlooded limits script ∧ script.IsDoneAt time ∧
      limits.timeout.Exceeds (seconds time) := by
  constructor
  · intro h
    cases hstart : script.start with
    | refused text => simp [ending, hstart] at h
    | broken text => simp [ending, hstart] at h
    | started =>
        obtain ⟨first, -, -, hending⟩ | ⟨hquiet, ⟨last, hdone, htime, hending⟩ | ⟨-, hending⟩⟩ :=
          ending_cases hstart
        · cases hending.symm.trans h
        · obtain rfl := Ending.finished.inj (hending.symm.trans h)
          exact ⟨rfl, hquiet, hdone, htime⟩
        · cases hending.symm.trans h
  · rintro ⟨hstart, hquiet, hdone, htime⟩
    exact ending_of_isDoneAt hstart hquiet hdone htime

/-- No run takes longer than there is time, or less than no time. -/
theorem wait?_le {deadline wait : Rat} (hdeadline : deadline? limits = some deadline)
    (h : wait? limits (ending limits script) = some wait) : 0 ≤ wait ∧ wait ≤ deadline := by
  cases hstart : script.start with
  | refused text => simp [ending, hstart, wait?] at h
  | broken text => simp [ending, hstart, wait?] at h
  | started =>
      obtain ⟨time, -, htime, hending⟩ | ⟨-, ⟨time, -, htime, hending⟩ | ⟨-, hending⟩⟩ :=
        ending_cases hstart
      · rw [hending] at h
        obtain rfl := Option.some.inj h
        exact ⟨seconds_nonneg time, ((exceeds_seconds_iff.1 htime).2 _ hdeadline).le⟩
      · rw [hending] at h
        obtain rfl := Option.some.inj h
        exact ⟨seconds_nonneg time, ((exceeds_seconds_iff.1 htime).2 _ hdeadline).le⟩
      · rw [hending, wait?, hdeadline] at h
        obtain rfl := Option.some.inj h
        exact ⟨deadline?_nonneg hdeadline, le_refl _⟩

/-! ### What is done about the child -/

theorem hasExited_iff {moment : Rat} : hasExited script moment = true ↔
    ∃ code exits, script.exitCode = some code ∧ script.exits = some exits ∧
      seconds exits ≤ moment := by
  rw [hasExited, Bool.and_eq_true, Option.isSome_iff_exists]
  cases script.exits with
  | none => simp
  | some exits => simp

/-- A run that fails kills its child, or tries to, unless the child has exited by then. -/
theorem stop_ne_unneeded_iff {ending : Ending} {wait : Rat}
    (hwait : wait? limits ending = some wait) (hfinished : ∀ time, ending ≠ .finished time) :
    stop limits script ending ≠ .unneeded ↔ hasExited script wait = false := by
  have hstop : stop limits script ending = if hasExited script wait then .unneeded
      else if script.elusive then .gone else .killed := by
    cases ending with
    | refused text => cases hwait
    | broken text => cases hwait
    | finished time => exact absurd rfl (hfinished time)
    | timedOut => simp only [stop, hwait, Option.getD_some]
    | overflowed time => simp only [stop, hwait, Option.getD_some]
  rw [hstop]
  cases hasExited script wait with
  | true => simp
  | false => cases script.elusive <;> simp

end Child

end CurlWarden
