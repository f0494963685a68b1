import CurlWarden.Proofs.Child.Watch

/-!
# A watch comes to the end of the run

A `Timeline` is an order in which a watch (`Proofs.Child.Watch`) may hear of everything that happens
to a child. There is always one (`exists_timeline`), and along each of them the watch decides what
`ending` says, when `wait?` says, and does about the child what `stop` says
(`Timeline.follow_matches`), if the moments that decide do not coincide except at the start
(`Apart`).

While nothing is decided, everything that was written by an earlier moment has been read; that is
what ties the budget of the watch to `Script.Floods`. One lemma for each way to decide is made of
it: `overflow_matches`, `finish_matches`, `alarm_matches`, and `silence_matches` for a timeline that
decides nothing.
-/

namespace CurlWarden.Child

/-! ### Timelines -/

section
variable {limits : Limits} {script : Script} {line past rest : List Occurrence}
  {occurrence : Occurrence} {watch : Watch}

theorem mem_occurrences_iff : occurrence ∈ occurrences limits script ↔
    (∃ chunk ∈ script.chunks,
      occurrence = ⟨seconds chunk.time, .wrote chunk.stream chunk.bytes.length⟩) ∨
    (∃ closes stream, script.closes = some closes ∧
      occurrence = ⟨seconds closes, .closed stream⟩) ∨
    (∃ exits, script.exits = some exits ∧
      occurrence = ⟨seconds exits, .exited script.exitCode⟩) ∨
    ∃ deadline, deadline? limits = some deadline ∧ occurrence = ⟨deadline, .timeUp⟩ := by
  have hstream : ∀ closes, (occurrence = ⟨seconds closes, .closed .out⟩ ∨
      occurrence = ⟨seconds closes, .closed .err⟩) ↔
      ∃ stream, occurrence = ⟨seconds closes, .closed stream⟩ := by
    intro closes
    constructor
    · rintro (h | h)
      · exact ⟨.out, h⟩
      · exact ⟨.err, h⟩
    · rintro ⟨stream, h⟩
      cases stream with
      | out => exact .inl h
      | err => exact .inr h
  simp [occurrences, hstream, eq_comm]

namespace Timeline

theorem mem_iff (h : Timeline limits script line) :
    occurrence ∈ line ↔ occurrence ∈ occurrences limits script := h.perm.mem_iff

theorem time_nonneg (h : Timeline limits script line) (hmem : occurrence ∈ line) :
    0 ≤ occurrence.time := by
  obtain ⟨chunk, -, rfl⟩ | ⟨closes, stream, -, rfl⟩ | ⟨exits, -, rfl⟩ | ⟨deadline, hd, rfl⟩ :=
    mem_occurrences_iff.1 (h.mem_iff.1 hmem)
  · exact seconds_nonneg _
  · exact seconds_nonneg _
  · exact seconds_nonneg _
  · exact deadline?_nonneg hd

theorem not_precedes (h : Timeline limits script (past ++ rest)) {earlier later : Occurrence}
    (hpast : earlier ∈ past) (hrest : later ∈ rest) : ¬ later.Precedes earlier :=
  (List.pairwise_append.1 h.ordered).2.2 earlier hpast later hrest

theorem time_le (h : Timeline limits script (past ++ rest)) {earlier later : Occurrence}
    (hpast : earlier ∈ past) (hrest : later ∈ rest) : earlier.time ≤ later.time :=
  not_lt.1 fun hlt => h.not_precedes hpast hrest (.earlier hlt)

theorem eq_of_wrote (h : Timeline limits script line) (hmem : occurrence ∈ line)
    {stream : Stream} {count : Nat} (hsignal : occurrence.signal = .wrote stream count) :
    ∃ chunk ∈ script.chunks,
      occurrence = ⟨seconds chunk.time, .wrote chunk.stream chunk.bytes.length⟩ := by
  obtain ⟨chunk, hchunk, rfl⟩ | ⟨closes, other, -, rfl⟩ | ⟨exits, -, rfl⟩ | ⟨deadline, -, rfl⟩ :=
    mem_occurrences_iff.1 (h.mem_iff.1 hmem)
  · exact ⟨chunk, hchunk, rfl⟩
  · cases hsignal
  · cases hsignal
  · cases hsignal

theorem eq_of_exited (h : Timeline limits script line) (hmem : occurrence ∈ line)
    {code : Option Int} (hsignal : occurrence.signal = .exited code) :
    ∃ exits, script.exits = some exits ∧
      occurrence = ⟨seconds exits, .exited script.exitCode⟩ := by
  obtain ⟨chunk, -, rfl⟩ | ⟨closes, stream, -, rfl⟩ | ⟨exits, hexits, rfl⟩ | ⟨deadline, -, rfl⟩ :=
    mem_occurrences_iff.1 (h.mem_iff.1 hmem)
  · cases hsignal
  · cases hsignal
  · exact ⟨exits, hexits, rfl⟩
  · cases hsignal

theorem eq_of_closed (h : Timeline limits script line) (hmem : occurrence ∈ line)
    {stream : Stream} (hsignal : occurrence.signal = .closed stream) :
    ∃ closes, script.closes = some closes ∧ occurrence = ⟨seconds closes, .closed stream⟩ := by
  obtain ⟨chunk, -, rfl⟩ | ⟨closes, other, hcloses, rfl⟩ | ⟨exits, -, rfl⟩ | ⟨deadline, -, rfl⟩ :=
    mem_occurrences_iff.1 (h.mem_iff.1 hmem)
  · cases hsignal
  · obtain rfl := Signal.closed.inj hsignal
    exact ⟨closes, hcloses, rfl⟩
  · cases hsignal
  · cases hsignal

theorem deadline?_eq_of_timeUp (h : Timeline limits script line) (hmem : occurrence ∈ line)
    (hsignal : occurrence.signal = .timeUp) : deadline? limits = some occurrence.time := by
  obtain ⟨chunk, -, rfl⟩ | ⟨closes, other, -, rfl⟩ | ⟨exits, -, rfl⟩ | ⟨deadline, hd, rfl⟩ :=
    mem_occurrences_iff.1 (h.mem_iff.1 hmem)
  · cases hsignal
  · cases hsignal
  · cases hsignal
  · exact hd

/-- The bytes of a timeline up to a moment are those that the child has written by then. -/
theorem sum_bytes (h : Timeline limits script line) (time : Nat) :
    (line.map fun o => if o.time ≤ seconds time then o.signal.bytes else 0).sum
      = script.written time := by
  rw [(h.perm.map _).sum_nat, written_eq_sum, occurrences]
  cases script.closes <;> cases script.exits <;> cases deadline? limits <;>
    simp [Function.comp_def, seconds_le_seconds, Signal.bytes]

/-- What has been read by some moment had been written by then. -/
theorem bytesIn_le_written (h : Timeline limits script (past ++ rest)) {time : Nat}
    (hpast : ∀ o ∈ past, o.time ≤ seconds time) :
    Watch.bytesIn (past.map (·.signal)) ≤ script.written time := by
  have hall : past.map (fun o => if o.time ≤ seconds time then o.signal.bytes else 0)
      = (past.map (·.signal)).map Signal.bytes := by
    rw [List.map_map]
    apply List.map_congr_left
    intro o ho
    exact if_pos (hpast o ho)
  rw [← h.sum_bytes, List.map_append, List.sum_append, hall]
  exact Nat.le_add_right _ _

/-- What was written by some moment has been read, if nothing of it is left to be read. -/
theorem written_le_bytesIn (h : Timeline limits script (past ++ rest)) {time : Nat}
    (hrest : ∀ o ∈ rest, o.time ≤ seconds time → o.signal.bytes = 0) :
    script.written time ≤ Watch.bytesIn (past.map (·.signal)) := by
  have hnone : (rest.map fun o => if o.time ≤ seconds time then o.signal.bytes else 0).sum = 0 := by
    apply List.sum_eq_zero_iff_forall_eq_nat.2
    intro n hn
    obtain ⟨o, ho, rfl⟩ := List.mem_map.1 hn
    split
    · next htime => exact hrest o ho htime
    · rfl
  rw [← h.sum_bytes, List.map_append, List.sum_append, hnone, Nat.add_zero, Watch.bytesIn,
    List.map_map]
  apply List.sum_le_sum
  intro o _
  split
  · exact le_refl _
  · exact Nat.zero_le _

end Timeline

/-! ### What decides -/

/-- Nothing arrives after the streams are closed. -/
def Script.IsOrderly (script : Script) : Prop :=
  ∀ closes, script.closes = some closes → ∀ chunk ∈ script.chunks, chunk.time ≤ closes

/-- The moments that decide do not coincide, except at the start: nothing decides just when the time
is up, and the child does not exit just when it has written too much. -/
structure Apart (limits : Limits) (script : Script) : Prop where
  floods : ∀ time, script.Floods limits.maxOutputBytes time →
    deadline? limits = some (seconds time) → time = 0
  done : ∀ time, script.IsDoneAt time → deadline? limits = some (seconds time) → time = 0
  exit : ∀ time, script.exits = some time → deadline? limits = some (seconds time) → time = 0
  floodsExit : ∀ time, script.Floods limits.maxOutputBytes time →
    script.exits = some time → time = 0

/-- How a watch ends where a run ends in this way. -/
def Ending.verdict? : Ending → Option Verdict
  | .refused _ => none
  | .broken _ => none
  | .timedOut => some .timedOut
  | .overflowed _ => some .overflowed
  | .finished _ => some .finished

/-- A watch and a run come to the same end, at the same time, and do the same about the child; or
both are without end. -/
def Matches (limits : Limits) (script : Script) : Option (Rat × Verdict × Bool) → Prop
  | some (time, verdict, killed) =>
    wait? limits (ending limits script) = some time ∧
      (ending limits script).verdict? = some verdict ∧
      (killed = true ↔ stop limits script (ending limits script) ≠ .unneeded)
  | none => ending limits script = .timedOut ∧ deadline? limits = none

namespace Timeline

/-- Nothing is too much of which all was read before anything was decided. -/
theorem not_over {signals : List Signal} (hundecided : Watch.Undecided limits signals) {time : Nat}
    (hread : script.written time ≤ Watch.bytesIn signals) :
    ¬ (0 < script.written time ∧ limits.maxOutputBytes < script.written time) := by
  rintro ⟨hpos, hover⟩
  have hwithin := hundecided.within (hpos.trans_le hread)
  omega

/-- What is heard before the time is up is in time, if anything was read from the child. -/
theorem exceeds (h : Timeline limits script (past ++ rest))
    (honTime : .timeUp ∉ past.map (·.signal)) {first last : Occurrence} (hfirst : first ∈ past)
    (hread : ∃ stream, first.signal = .closed stream ∨ ∃ count, first.signal = .wrote stream count)
    (hlast : last ∈ past) {time : Nat} (htime : last.time = seconds time)
    (hapart : deadline? limits = some (seconds time) → time = 0) :
    limits.timeout.Exceeds (seconds time) := by
  have halarm : ∀ deadline, deadline? limits = some deadline →
      last.time ≤ deadline ∧ deadline ≠ 0 := by
    intro deadline hdeadline
    have hmem : ⟨deadline, .timeUp⟩ ∈ past ++ rest := by
      apply h.mem_iff.2
      exact mem_occurrences_iff.2 (.inr (.inr (.inr ⟨deadline, hdeadline, rfl⟩)))
    have hrest : ⟨deadline, .timeUp⟩ ∈ rest := by
      apply (List.mem_append.1 hmem).resolve_left
      intro hpast
      exact honTime (List.mem_map.2 ⟨_, hpast, rfl⟩)
    refine ⟨h.time_le hlast hrest, ?_⟩
    rintro rfl
    -- Without time, the alarm goes off before anything is read.
    have hzero : first.time = 0 :=
      le_antisymm (h.time_le hfirst hrest) (h.time_nonneg (List.mem_append_left _ hfirst))
    obtain ⟨firstTime, signal⟩ := first
    obtain rfl : firstTime = 0 := hzero
    apply h.not_precedes hfirst hrest
    obtain ⟨stream, rfl | ⟨count, rfl⟩⟩ := hread
    · exact .alarmClosed
    · exact .alarmWrote
  apply exceeds_seconds_iff.2
  constructor
  · by_contra hpositive
    have hdeadline : deadline? limits = some 0 := by rw [deadline?, if_neg hpositive]
    exact (halarm 0 hdeadline).2 rfl
  · intro deadline hdeadline
    obtain ⟨hle, hne⟩ := halarm deadline hdeadline
    rw [htime] at hle
    apply lt_of_le_of_ne hle
    rintro rfl
    apply hne
    rw [hapart hdeadline, seconds_zero]

/-- Up to a moment at which the child does not exit, an exit has been heard of exactly if it has
happened. -/
theorem exited_mem_iff (h : Timeline limits script (past ++ occurrence :: rest))
    (hsignal : ∀ code, occurrence.signal ≠ .exited code)
    (hapart : ∀ exits, script.exits = some exits → seconds exits = occurrence.time →
      occurrence.time = 0) {code : Option Int} :
    .exited code ∈ (past ++ [occurrence]).map (·.signal) ↔
      code = script.exitCode ∧ ∃ exits, script.exits = some exits ∧
        seconds exits ≤ occurrence.time := by
  constructor
  · intro hmem
    obtain ⟨o, ho, hexited⟩ := List.mem_map.1 hmem
    have hpast : o ∈ past := by
      apply (List.mem_append.1 ho).resolve_right
      intro hlast
      rw [List.mem_singleton.1 hlast] at hexited
      exact hsignal code hexited
    obtain ⟨exits, hexits, rfl⟩ := h.eq_of_exited (List.mem_append_left _ hpast) hexited
    obtain rfl := Signal.exited.inj hexited
    exact ⟨rfl, exits, hexits, h.time_le hpast List.mem_cons_self⟩
  · rintro ⟨rfl, exits, hexits, hle⟩
    have hline : ⟨seconds exits, .exited script.exitCode⟩ ∈ past ++ occurrence :: rest := by
      apply h.mem_iff.2
      exact mem_occurrences_iff.2 (.inr (.inr (.inl ⟨exits, hexits, rfl⟩)))
    rw [List.append_cons] at h hline
    apply List.mem_map.2
    refine ⟨_, (List.mem_append.1 hline).resolve_right fun hrest => ?_, rfl⟩
    -- An exit that is still to be heard of is at this moment, and so at the start.
    have hlast : occurrence ∈ past ++ [occurrence] := by simp
    have hzero : occurrence.time = 0 :=
      hapart exits hexits (le_antisymm hle (h.time_le hlast hrest))
    apply h.not_precedes hlast hrest
    obtain ⟨time, signal⟩ := occurrence
    obtain rfl : time = 0 := hzero
    rw [le_antisymm hle (seconds_nonneg exits)]
    exact .exit hsignal

/-- The watch kills the child where the child has not exited, with a known code. -/
theorem kills_iff (h : Timeline limits script (past ++ occurrence :: rest))
    (hsignal : ∀ code, occurrence.signal ≠ .exited code)
    (hapart : ∀ exits, script.exits = some exits → seconds exits = occurrence.time →
      occurrence.time = 0)
    (hknows : Watch.Knows limits ((past ++ [occurrence]).map (·.signal)) watch)
    {verdict : Verdict} (hverdict : verdict ≠ .finished) :
    watch.kills verdict = true ↔ hasExited script occurrence.time = false := by
  rw [Watch.kills, decide_eq_true hverdict, Bool.true_and]
  cases hexit : watch.exit with
  | none =>
      -- No exit has been heard of, so there was none by now.
      have hnot : hasExited script occurrence.time = false := by
        apply Bool.eq_false_iff.2
        intro hexited
        obtain ⟨code, exits, -, hexits, hle⟩ := hasExited_iff.1 hexited
        apply hknows.running hexit script.exitCode
        exact (h.exited_mem_iff hsignal hapart).2 ⟨rfl, exits, hexits, hle⟩
      simp [hnot]
  | some code =>
      obtain ⟨rfl, exits, hexits, hle⟩ :=
        (h.exited_mem_iff hsignal hapart).1 (hknows.exited code hexit)
      simp [hasExited, hexits, hle]

/-! ### What a watch decides -/

theorem snoc (h : Timeline limits script (past ++ occurrence :: rest)) :
    Timeline limits script (past ++ [occurrence] ++ rest) := by
  rwa [← List.append_cons]

theorem time_le_last (h : Timeline limits script (past ++ occurrence :: rest)) :
    ∀ o ∈ past ++ [occurrence], o.time ≤ occurrence.time := by
  intro o ho
  obtain hpast | hlast := List.mem_append.1 ho
  · exact h.time_le hpast List.mem_cons_self
  · rw [List.mem_singleton.1 hlast]

theorem last_time_le (h : Timeline limits script (past ++ occurrence :: rest)) :
    ∀ o ∈ rest, occurrence.time ≤ o.time := by
  intro o ho
  exact h.snoc.time_le (by simp) ho

theorem lt_of_lt_head (h : Timeline limits script (past ++ occurrence :: rest)) {time : Rat}
    (hlt : time < occurrence.time) : ∀ o ∈ occurrence :: rest, time < o.time := by
  intro o ho
  obtain rfl | hrest := List.mem_cons.1 ho
  · exact hlt
  · exact hlt.trans_le (h.last_time_le o hrest)

/-- As long as nothing is decided, nothing was too much by any moment of the past. -/
theorem not_over_of_lt (h : Timeline limits script (past ++ rest))
    (hundecided : Watch.Undecided limits (past.map (·.signal))) {time : Nat}
    (hrest : ∀ o ∈ rest, seconds time < o.time) :
    ¬ (0 < script.written time ∧ limits.maxOutputBytes < script.written time) := by
  apply not_over hundecided
  apply h.written_le_bytesIn
  intro o ho hle
  exact absurd hle (not_le.2 (hrest o ho))

/-- A child that was done in the past is known to be done. -/
theorem complete_of_lt (h : Timeline limits script (past ++ rest)) {time : Nat}
    (hdone : script.IsDoneAt time) (hrest : ∀ o ∈ rest, seconds time < o.time) :
    Watch.Complete (past.map (·.signal)) := by
  obtain ⟨closes, exits, hcloses, hexits, rfl⟩ := hdone
  have hheard : ∀ o ∈ occurrences limits script, o.time ≤ seconds (max closes exits) →
      o.signal ∈ past.map (·.signal) := by
    intro o ho hle
    apply List.mem_map_of_mem
    apply (List.mem_append.1 (h.mem_iff.2 ho)).resolve_right
    intro hlater
    exact absurd hle (not_le.2 (hrest o hlater))
  have hclosed : ∀ stream, .closed stream ∈ past.map (·.signal) := fun stream =>
    hheard ⟨seconds closes, .closed stream⟩
      (mem_occurrences_iff.2 (.inr (.inl ⟨closes, stream, hcloses, rfl⟩)))
      (seconds_le_seconds.2 (le_max_left _ _))
  have hexited : .exited script.exitCode ∈ past.map (·.signal) :=
    hheard ⟨seconds exits, .exited script.exitCode⟩
      (mem_occurrences_iff.2 (.inr (.inr (.inl ⟨exits, hexits, rfl⟩))))
      (seconds_le_seconds.2 (le_max_right _ _))
  exact ⟨hclosed .out, hclosed .err, script.exitCode, hexited⟩

/-- The budget is overdrawn at the first moment at which too much was written. -/
theorem overflow_matches (h : Timeline limits script (past ++ occurrence :: rest))
    (hstart : script.start = .started) (hapart : Apart limits script)
    (hknows : Watch.Knows limits ((past ++ [occurrence]).map (·.signal)) watch)
    (hundecided : Watch.Undecided limits (past.map (·.signal))) {stream : Stream} {count : Nat}
    (hsignal : occurrence.signal = .wrote stream count) (hcount : count ≠ 0)
    (hbudget : watch.budget < 0) :
    Matches limits script (some (occurrence.time, .overflowed, watch.kills .overflowed)) := by
  have hlast : occurrence ∈ past ++ [occurrence] := by simp
  have hline := h.snoc
  obtain ⟨chunk, -, hchunk⟩ := hline.eq_of_wrote (List.mem_append_left _ hlast) hsignal
  have htime : occurrence.time = seconds chunk.time := by rw [hchunk]
  have hread : Watch.bytesIn ((past ++ [occurrence]).map (·.signal))
      ≤ script.written chunk.time :=
    hline.bytesIn_le_written fun o ho => (h.time_le_last o ho).trans_eq htime
  have hpos : count ≤ Watch.bytesIn ((past ++ [occurrence]).map (·.signal)) := by
    simp [Watch.bytesIn, hsignal, Signal.bytes]
  have hfloods : script.Floods limits.maxOutputBytes chunk.time := by
    refine ⟨⟨by omega, ?_⟩, ?_⟩
    · rw [hknows.budget] at hbudget
      omega
    · -- All that was written by an earlier moment was read before, and it was not too much.
      intro earlier hover
      by_contra hlt
      apply h.not_over_of_lt hundecided (h.lt_of_lt_head _) hover
      rw [htime]
      exact seconds_lt_seconds.2 (not_le.1 hlt)
  have hexceeds : limits.timeout.Exceeds (seconds chunk.time) := by
    have honTime : .timeUp ∉ (past ++ [occurrence]).map (·.signal) := by
      simpa [hsignal] using hundecided.onTime
    exact hline.exceeds honTime hlast ⟨stream, .inr ⟨count, hsignal⟩⟩ hlast htime
      (hapart.floods _ hfloods)
  have hexit : ∀ exits, script.exits = some exits → seconds exits = occurrence.time →
      occurrence.time = 0 := by
    intro exits hexits heq
    obtain rfl := seconds_inj.1 (heq.trans htime)
    rw [htime, hapart.floodsExit _ hfloods hexits, seconds_zero]
  have hending := ending_of_floods hstart hfloods hexceeds
  have hwait : wait? limits (.overflowed chunk.time) = some occurrence.time := by
    rw [wait?, htime]
  have hfinished : ∀ time, Ending.overflowed chunk.time ≠ .finished time := by simp
  have hkills := h.kills_iff (by simp [hsignal]) hexit hknows
    (show Verdict.overflowed ≠ .finished by decide)
  rw [Matches, hending]
  exact ⟨hwait, rfl, hkills.trans (stop_ne_unneeded_iff hwait hfinished).symm⟩

/-- Nothing is left to be read when both streams are known to be closed. -/
theorem not_flooded_of_closed (h : Timeline limits script (past ++ occurrence :: rest))
    (horderly : script.IsOrderly) (hundecided : Watch.Undecided limits (past.map (·.signal)))
    (hbytes : occurrence.signal.bytes = 0)
    (hclosed : ∀ stream, .closed stream ∈ (past ++ [occurrence]).map (·.signal)) :
    ¬ IsFlooded limits script := by
  rintro ⟨time, ⟨hover, -⟩, -⟩
  have hline := h.snoc
  apply not_over hundecided _ hover
  apply h.written_le_bytesIn
  intro o ho _
  obtain rfl | hrest := List.mem_cons.1 ho
  · exact hbytes
  cases hsignal : o.signal with
  | closed stream => rfl
  | exited code => rfl
  | timeUp => rfl
  | wrote stream count =>
      exfalso
      obtain ⟨chunk, hchunk, rfl⟩ := hline.eq_of_wrote (List.mem_append_right _ hrest) hsignal
      obtain ⟨close, hclose, hsame⟩ := List.mem_map.1 (hclosed chunk.stream)
      obtain ⟨closes, hcloses, rfl⟩ := hline.eq_of_closed (List.mem_append_left _ hclose) hsame
      -- The chunk comes no later than the end of its stream, so they come together.
      have hle : seconds chunk.time ≤ seconds closes :=
        seconds_le_seconds.2 (horderly closes hcloses chunk hchunk)
      have heq : seconds chunk.time = seconds closes :=
        le_antisymm hle (hline.time_le hclose hrest)
      apply hline.not_precedes hclose hrest
      rw [heq]
      exact .content

/-- Everything has been heard of at the moment at which the child is done. -/
theorem exists_isDoneAt (h : Timeline limits script (past ++ occurrence :: rest))
    (hsignal : (∃ stream, occurrence.signal = .closed stream) ∨
      ∃ code, occurrence.signal = .exited code)
    (hcomplete : Watch.Complete ((past ++ [occurrence]).map (·.signal))) :
    ∃ time, script.IsDoneAt time ∧ occurrence.time = seconds time := by
  have hlast : occurrence ∈ past ++ [occurrence] := by simp
  obtain ⟨out, hout, houtSignal⟩ := List.mem_map.1 hcomplete.out
  obtain ⟨code, hcode⟩ := hcomplete.exit
  obtain ⟨exit, hexit, hexitSignal⟩ := List.mem_map.1 hcode
  obtain ⟨closes, hcloses, rfl⟩ := h.snoc.eq_of_closed (List.mem_append_left _ hout) houtSignal
  obtain ⟨exits, hexits, rfl⟩ := h.snoc.eq_of_exited (List.mem_append_left _ hexit) hexitSignal
  refine ⟨max closes exits, ⟨closes, exits, hcloses, hexits, rfl⟩, le_antisymm ?_ ?_⟩
  · obtain ⟨stream, hstream⟩ | ⟨code, hcode⟩ := hsignal
    · obtain ⟨other, hother, hoccurrence⟩ :=
        h.snoc.eq_of_closed (List.mem_append_left _ hlast) hstream
      obtain rfl := Option.some.inj (hother.symm.trans hcloses)
      rw [hoccurrence]
      exact seconds_le_seconds.2 (le_max_left _ _)
    · obtain ⟨other, hother, hoccurrence⟩ :=
        h.snoc.eq_of_exited (List.mem_append_left _ hlast) hcode
      obtain rfl := Option.some.inj (hother.symm.trans hexits)
      rw [hoccurrence]
      exact seconds_le_seconds.2 (le_max_right _ _)
  · have hcloseLe : seconds closes ≤ occurrence.time := h.time_le_last _ hout
    have hexitLe : seconds exits ≤ occurrence.time := h.time_le_last _ hexit
    rcases max_choice closes exits with hmax | hmax
    · rwa [hmax]
    · rwa [hmax]

/-- A child that is done in time, and of which all was read before, has finished. -/
theorem finish_matches (h : Timeline limits script (past ++ occurrence :: rest))
    (hstart : script.start = .started) (horderly : script.IsOrderly)
    (hapart : Apart limits script)
    (hundecided : Watch.Undecided limits (past.map (·.signal)))
    (hsignal : (∃ stream, occurrence.signal = .closed stream) ∨
      ∃ code, occurrence.signal = .exited code)
    (hcomplete : Watch.Complete ((past ++ [occurrence]).map (·.signal))) :
    Matches limits script (some (occurrence.time, .finished, watch.kills .finished)) := by
  obtain ⟨time, hdone, htime⟩ := h.exists_isDoneAt hsignal hcomplete
  have hbytes : occurrence.signal.bytes = 0 := by
    obtain ⟨stream, hstream⟩ | ⟨code, hcode⟩ := hsignal
    · rw [hstream, Signal.bytes]
    · rw [hcode, Signal.bytes]
  -- Nothing more can come, and what has come was within the budget.
  have hquiet : ¬ IsFlooded limits script := by
    apply h.not_flooded_of_closed horderly hundecided hbytes
    intro stream
    cases stream with
    | out => exact hcomplete.out
    | err => exact hcomplete.err
  have hexceeds : limits.timeout.Exceeds (seconds time) := by
    have honTime : .timeUp ∉ (past ++ [occurrence]).map (·.signal) := by
      obtain ⟨stream, hstream⟩ | ⟨code, hcode⟩ := hsignal
      · simpa [hstream] using hundecided.onTime
      · simpa [hcode] using hundecided.onTime
    obtain ⟨out, hout, houtSignal⟩ := List.mem_map.1 hcomplete.out
    exact h.snoc.exceeds honTime hout ⟨.out, .inl houtSignal⟩ (by simp) htime
      (hapart.done _ hdone)
  rw [Matches, ending_of_isDoneAt hstart hquiet hdone hexceeds, htime]
  exact ⟨rfl, rfl, by simp [Watch.kills, stop]⟩

/-- The timer goes off where nothing was decided before. -/
theorem alarm_matches (h : Timeline limits script (past ++ occurrence :: rest))
    (hstart : script.start = .started) (hapart : Apart limits script)
    (hknows : Watch.Knows limits ((past ++ [occurrence]).map (·.signal)) watch)
    (hundecided : Watch.Undecided limits (past.map (·.signal)))
    (hsignal : occurrence.signal = .timeUp) :
    Matches limits script (some (occurrence.time, .timedOut, watch.kills .timedOut)) := by
  have hdeadline : deadline? limits = some occurrence.time :=
    h.deadline?_eq_of_timeUp (List.mem_append_right _ List.mem_cons_self) hsignal
  -- What comes in time has been heard of, and it decided nothing.
  have hearlier : ∀ time, limits.timeout.Exceeds (seconds time) →
      ∀ o ∈ occurrence :: rest, seconds time < o.time := fun time htime =>
    h.lt_of_lt_head ((exceeds_seconds_iff.1 htime).2 _ hdeadline)
  have hquiet : ¬ IsFlooded limits script := by
    rintro ⟨time, hfloods, htime⟩
    exact h.not_over_of_lt hundecided (hearlier time htime) hfloods.1
  have hlate : ∀ time, script.IsDoneAt time → ¬ limits.timeout.Exceeds (seconds time) :=
    fun time hdone htime => hundecided.incomplete (h.complete_of_lt hdone (hearlier time htime))
  have hexit : ∀ exits, script.exits = some exits → seconds exits = occurrence.time →
      occurrence.time = 0 := by
    intro exits hexits heq
    rw [← heq] at hdeadline ⊢
    rw [hapart.exit exits hexits hdeadline, seconds_zero]
  have hwait : wait? limits .timedOut = some occurrence.time := by
    rw [wait?, hdeadline, Option.getD_some]
  have hfinished : ∀ time, Ending.timedOut ≠ .finished time := by simp
  have hkills := h.kills_iff (by simp [hsignal]) hexit hknows
    (show Verdict.timedOut ≠ .finished by decide)
  rw [Matches, ending_of_late hstart hquiet hlate]
  exact ⟨hwait, rfl, hkills.trans (stop_ne_unneeded_iff hwait hfinished).symm⟩

/-- Where nothing is decided at all, the child is without end, and so is its time. -/
theorem silence_matches (h : Timeline limits script line) (hstart : script.start = .started)
    (hundecided : Watch.Undecided limits (line.map (·.signal))) :
    Matches limits script none := by
  rw [← List.append_nil line] at h
  have hquiet : ¬ IsFlooded limits script := by
    rintro ⟨time, hfloods, -⟩
    exact h.not_over_of_lt hundecided nofun hfloods.1
  have hlate : ∀ time, script.IsDoneAt time → ¬ limits.timeout.Exceeds (seconds time) :=
    fun time hdone _ => hundecided.incomplete (h.complete_of_lt hdone nofun)
  have hdeadline : deadline? limits = none := by
    apply Option.eq_none_iff_forall_ne_some.2
    intro deadline hdeadline
    have hmem : ⟨deadline, .timeUp⟩ ∈ line ++ [] :=
      h.mem_iff.2 (mem_occurrences_iff.2 (.inr (.inr (.inr ⟨deadline, hdeadline, rfl⟩))))
    rw [List.append_nil] at hmem
    exact hundecided.onTime (List.mem_map_of_mem hmem)
  exact ⟨ending_of_late hstart hquiet hlate, hdeadline⟩

/-- The step lemma: where the signal heard last decides, the watch decides as the run ends. -/
theorem verdict_matches (h : Timeline limits script (past ++ occurrence :: rest))
    (hstart : script.start = .started) (horderly : script.IsOrderly)
    (hapart : Apart limits script)
    (hknows : Watch.Knows limits ((past ++ [occurrence]).map (·.signal)) watch)
    (hundecided : Watch.Undecided limits (past.map (·.signal))) {verdict : Verdict}
    (hverdict : watch.verdict? occurrence.signal = some verdict) :
    Matches limits script (some (occurrence.time, verdict, watch.kills verdict)) := by
  have hfinish : ∀ hdone : (if watch.isDone then some Verdict.finished else none) = some verdict,
      watch.isDone = true ∧ verdict = .finished := by
    intro hdone
    split at hdone
    · next hisDone => exact ⟨hisDone, (Option.some.inj hdone).symm⟩
    · cases hdone
  cases hsignal : occurrence.signal with
  | wrote stream count =>
      rw [hsignal, Watch.verdict?] at hverdict
      split at hverdict
      · next hover =>
        obtain rfl := Option.some.inj hverdict
        exact h.overflow_matches hstart hapart hknows hundecided hsignal hover.1 hover.2
      · cases hverdict
  | closed stream =>
      rw [hsignal] at hverdict
      obtain ⟨hdone, rfl⟩ := hfinish hverdict
      exact h.finish_matches hstart horderly hapart hundecided (.inl ⟨stream, hsignal⟩)
        (hknows.isDone_iff.1 hdone)
  | exited code =>
      rw [hsignal] at hverdict
      obtain ⟨hdone, rfl⟩ := hfinish hverdict
      exact h.finish_matches hstart horderly hapart hundecided (.inr ⟨code, hsignal⟩)
        (hknows.isDone_iff.1 hdone)
  | timeUp =>
      rw [hsignal] at hverdict
      obtain rfl := Option.some.inj hverdict
      exact h.alarm_matches hstart hapart hknows hundecided hsignal

/-- The run lemma: what is still to be heard is followed from what is known of the past. -/
theorem follow_matches_of_past (h : Timeline limits script (past ++ rest))
    (hstart : script.start = .started) (horderly : script.IsOrderly)
    (hapart : Apart limits script) (hknows : Watch.Knows limits (past.map (·.signal)) watch)
    (hundecided : Watch.Undecided limits (past.map (·.signal))) :
    Matches limits script (watch.follow rest) := by
  -- By induction on what is still to be heard; that nothing of the past decides is the invariant.
  induction rest generalizing past watch with
  | nil =>
      rw [List.append_nil] at h
      exact h.silence_matches hstart hundecided
  | cons occurrence rest ih =>
      have hmap : (past ++ [occurrence]).map (·.signal)
          = past.map (·.signal) ++ [occurrence.signal] := List.map_append
      have hnow : Watch.Knows limits ((past ++ [occurrence]).map (·.signal))
          (watch.hear occurrence.signal) := by
        rw [hmap]
        exact hknows.hear
      cases hverdict : (watch.hear occurrence.signal).verdict? occurrence.signal with
      | none =>
          have hstep : watch.follow (occurrence :: rest)
              = (watch.hear occurrence.signal).follow rest := by
            rw [Watch.follow, hverdict]
          rw [hstep]
          apply ih h.snoc hnow
          rw [hmap]
          exact hundecided.hear hknows hverdict
      | some verdict =>
          have hstep : watch.follow (occurrence :: rest) = some (occurrence.time, verdict,
              (watch.hear occurrence.signal).kills verdict) := by
            rw [Watch.follow, hverdict]
          rw [hstep]
          exact h.verdict_matches hstart horderly hapart hnow hundecided hverdict

/-- Along every timeline, a watch decides what the run comes to. -/
theorem follow_matches (h : Timeline limits script line) (hstart : script.start = .started)
    (horderly : script.IsOrderly) (hapart : Apart limits script) :
    Matches limits script ((Watch.ofLimits limits).follow line) := by
  rw [← List.nil_append line] at h
  exact h.follow_matches_of_past hstart horderly hapart (Watch.knows_ofLimits limits)
    (Watch.undecided_nil limits)

end Timeline

end

/-! ### There is a timeline -/

namespace Occurrence

/-- Of the signals of one moment, exits come first, then the alarm, then what is read, and then
that there is nothing more to read. -/
def rank : Signal → Nat
  | .exited _ => 0
  | .timeUp => 1
  | .wrote _ _ => 2
  | .closed _ => 3

def sooner (a b : Occurrence) : Bool :=
  a.time < b.time ∨ a.time = b.time ∧ rank a.signal ≤ rank b.signal

theorem sooner_total (a b : Occurrence) : sooner a b || sooner b a := by
  simp only [sooner, Bool.or_eq_true, decide_eq_true_eq]
  rcases lt_trichotomy a.time b.time with hlt | heq | hlt
  · exact .inl (.inl hlt)
  · rcases Nat.le_total (rank a.signal) (rank b.signal) with hle | hle
    · exact .inl (.inr ⟨heq, hle⟩)
    · exact .inr (.inr ⟨heq.symm, hle⟩)
  · exact .inr (.inl hlt)

theorem sooner_trans (a b c : Occurrence) (hab : sooner a b) (hbc : sooner b c) :
    sooner a c := by
  simp only [sooner, decide_eq_true_eq] at hab hbc ⊢
  rcases hab with hab | ⟨hab, hrank⟩
  · rcases hbc with hbc | ⟨hbc, -⟩
    · exact .inl (hab.trans hbc)
    · exact .inl (hab.trans_eq hbc)
  · rcases hbc with hbc | ⟨hbc, hrank'⟩
    · exact .inl (hab.trans_lt hbc)
    · exact .inr ⟨hab.trans hbc, hrank.trans hrank'⟩

theorem not_precedes_of_sooner {a b : Occurrence} (h : sooner a b) : ¬ b.Precedes a := by
  simp only [sooner, decide_eq_true_eq] at h
  intro hprecedes
  cases hprecedes with
  | earlier hlt =>
      rcases h with h | ⟨h, -⟩
      · exact lt_asymm h hlt
      · exact hlt.ne h.symm
  | content => simp [rank] at h
  | exit hsignal =>
      rename_i code signal
      cases signal with
      | exited other => exact hsignal other rfl
      | wrote stream count => simp [rank] at h
      | closed stream => simp [rank] at h
      | timeUp => simp [rank] at h
  | alarmWrote => simp [rank] at h
  | alarmClosed => simp [rank] at h

end Occurrence

/-- Whatever the child does, it can be heard of in some order. -/
theorem exists_timeline (limits : Limits) (script : Script) :
    ∃ line, Timeline limits script line := by
  refine ⟨(occurrences limits script).mergeSort Occurrence.sooner, List.mergeSort_perm _ _, ?_⟩
  apply (List.pairwise_mergeSort Occurrence.sooner_trans Occurrence.sooner_total _).imp
  intro a b h
  exact Occurrence.not_precedes_of_sooner h

end CurlWarden.Child
