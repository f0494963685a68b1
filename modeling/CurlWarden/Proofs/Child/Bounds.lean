import CurlWarden.Proofs.Child.Timeline

/-!
# Every run is bounded

What is promised of the run of a child that the system starts or refuses to start (`IsBounded`):
what it comes to and when, from the first moment at which too much has arrived, the moment at which
the child is done, and the timeout; that it does not outlast the timeout; that a child that is
reported on wrote no more than it may and has exited; and which children are killed.

* `run_isBounded` — the promise is kept, and a watch over the child comes to the same.
* `not_outputLimit_silent` — a limit below zero is exceeded by a child that writes nothing, but does
  not make its run fail: it is only held against bytes that arrive.
-/

namespace CurlWarden

theorem Binary64.Exceeds.mono {x : Binary64} {p q : Rat} (h : x.Exceeds q) (hle : p ≤ q) :
    x.Exceeds p := by
  obtain hinfinite | ⟨hfinite, hlt⟩ := h
  · exact .inl hinfinite
  · exact .inr ⟨hfinite, hle.trans_lt hlt⟩

namespace Child

variable {limits : Limits} {env : Environment} {argv : Argv} {script : Script} {time : Nat}

/-! ### What was written in all -/

theorem length_bytesOn (script : Script) (stream : Stream) : (script.bytesOn stream).length =
    ((script.chunks.filter (·.stream = stream)).map (·.bytes.length)).sum := by
  rw [Script.bytesOn, List.length_flatMap]
  exact ((List.mergeSort_perm _ _).map _).sum_nat

/-- Every byte is on one of the two streams. -/
theorem length_bytesOn_add (script : Script) :
    (script.bytesOn .out).length + (script.bytesOn .err).length
      = (script.chunks.map (·.bytes.length)).sum := by
  rw [length_bytesOn, length_bytesOn]
  induction script.chunks with
  | nil => rfl
  | cons chunk chunks ih =>
      cases hstream : chunk.stream with
      | out =>
          simp [hstream]
          omega
      | err =>
          simp [hstream]
          omega

/-- A child that is done has written everything. -/
theorem written_of_isDoneAt (horderly : script.IsOrderly) (hdone : script.IsDoneAt time) :
    script.written time = (script.bytesOn .out).length + (script.bytesOn .err).length := by
  obtain ⟨closes, exits, hcloses, -, rfl⟩ := hdone
  rw [length_bytesOn_add, written_eq_sum]
  congr 1
  apply List.map_congr_left
  intro chunk hchunk
  exact if_pos ((horderly closes hcloses chunk hchunk).trans (le_max_left _ _))

/-- What was written in time was not too much, unless the child was stopped. -/
theorem written_le (hquiet : ¬ IsFlooded limits script)
    (htime : limits.timeout.Exceeds (seconds time)) :
    (script.written time : Int) ≤ max limits.maxOutputBytes 0 := by
  by_contra hover
  have hpos : 0 < script.written time := by omega
  have hlimit : limits.maxOutputBytes < script.written time := by omega
  obtain ⟨first, hle, hfloods⟩ := exists_floods hpos hlimit
  exact hquiet ⟨first, hfloods, htime.mono (seconds_le_seconds.2 hle)⟩

/-! ### The promise -/

/-- What is promised of the run of a child. -/
structure IsBounded (limits : Limits) (argv : Argv) (script : Script) (run : Run) : Prop where
  /-- Where the system refuses to start the child, this is told, with the reason. -/
  refused : ∀ text, script.start = .refused text →
    run.conclusion = .failed (.spawn argv.program text) ∧ run.wait? = none ∧ run.killed = false
  /-- Without time, the time is up at once, whatever the child does. -/
  noTime : script.start = .started → ¬ limits.timeout.Exceeds 0 →
    run.conclusion = .failed (.timeout limits.timeout) ∧ run.wait? = some 0
  /-- Too much output fails the run when it arrives, if that is before the time is up. -/
  flooded : script.start = .started → ∀ time, script.Floods limits.maxOutputBytes time →
    limits.timeout.Exceeds (seconds time) →
      run.conclusion = .failed .outputLimit ∧ run.wait? = some (seconds time)
  /-- Otherwise the run succeeds when the child is done, if that is before the time is up. -/
  done : script.start = .started → ¬ IsFlooded limits script → ∀ time, script.IsDoneAt time →
    limits.timeout.Exceeds (seconds time) →
      run.conclusion = .finished ⟨script.textOn .out, script.textOn .err,
        script.exitCode.getD unknownExitCode, time⟩ ∧
      run.wait? = some (seconds time)
  /-- Otherwise it fails when the time is up. -/
  late : script.start = .started → ¬ IsFlooded limits script →
    (∀ time, script.IsDoneAt time → ¬ limits.timeout.Exceeds (seconds time)) →
      run.conclusion = .failed (.timeout limits.timeout) ∧
      ∀ deadline, deadline? limits = some deadline → run.wait? = some deadline
  /-- The run of a child that was started ends by its timeout. -/
  inTime : script.start = .started → limits.timeout.isFinite = true →
    ∃ wait, run.wait? = some wait ∧ 0 ≤ wait ∧ wait ≤ max limits.timeout.toRat 0
  /-- A child that is reported on wrote no more than it may, has exited, and was not killed. -/
  success : ∀ outcome, run.conclusion = .finished outcome →
    ((script.bytesOn .out).length + (script.bytesOn .err).length : Int)
      ≤ max limits.maxOutputBytes 0 ∧
    (∃ exits, script.exits = some exits ∧ exits ≤ outcome.time) ∧
    run.wait? = some (seconds outcome.time) ∧ run.killed = false
  /-- A run that wrote too much or too long kills its child, or tries to, unless the child has
  exited by then with a known code. -/
  failure : ∀ wait, run.wait? = some wait →
    (run.conclusion = .failed .outputLimit ∨
      run.conclusion = .failed (.timeout limits.timeout)) →
    (run.killed = true ↔ ¬ ∃ code exits, script.exitCode = some code ∧
      script.exits = some exits ∧ seconds exits ≤ wait)

/-- A run is decided by how it ends. -/
theorem run_eq (limits : Limits) (env : Environment) (argv : Argv) (script : Script)
    {ending : Ending} (h : Child.ending limits script = ending) :
    (run limits env argv script).conclusion = conclusion limits argv script ending ∧
      (run limits env argv script).wait? = wait? limits ending ∧
      ((run limits env argv script).killed = true ↔ stop limits script ending ≠ .unneeded) := by
  subst h
  exact ⟨rfl, rfl, decide_eq_true_iff⟩

/-- Whoever runs a child that is started waits for it, and no longer than there is time. -/
theorem exists_wait (hstart : script.start = .started) (hfinite : limits.timeout.isFinite = true) :
    ∃ wait, wait? limits (ending limits script) = some wait ∧ 0 ≤ wait ∧
      wait ≤ max limits.timeout.toRat 0 := by
  have hdeadline := deadline?_of_isFinite hfinite
  obtain ⟨wait, hwait⟩ : ∃ wait, wait? limits (ending limits script) = some wait := by
    obtain ⟨_, -, -, hending⟩ | ⟨-, ⟨_, -, -, hending⟩ | ⟨-, hending⟩⟩ := ending_cases hstart
    · exact ⟨_, by rw [hending, wait?]⟩
    · exact ⟨_, by rw [hending, wait?]⟩
    · exact ⟨_, by rw [hending, wait?]⟩
  exact ⟨wait, hwait, wait?_le hdeadline hwait⟩

theorem isBounded (horderly : script.IsOrderly) :
    IsBounded limits argv script (run limits env argv script) where
  refused text hstart := by
    have hending : ending limits script = .refused text := by simp only [ending, hstart]
    obtain ⟨hconclusion, hwait, hkilled⟩ := run_eq limits env argv script hending
    exact ⟨hconclusion, hwait, Bool.eq_false_iff.2 fun h => hkilled.1 h rfl⟩
  noTime hstart hnone := by
    have hnever : ∀ time, ¬ limits.timeout.Exceeds (seconds time) := fun time h =>
      hnone (h.mono (seconds_nonneg time))
    have hquiet : ¬ IsFlooded limits script := by
      rintro ⟨time, -, htime⟩
      exact hnever time htime
    have hending : ending limits script = .timedOut :=
      ending_of_late hstart hquiet fun time _ => hnever time
    obtain ⟨hconclusion, hwait, -⟩ := run_eq limits env argv script hending
    refine ⟨hconclusion, hwait.trans ?_⟩
    rw [wait?, deadline?_of_not_exceeds hnone, Option.getD_some]
  flooded hstart time hfloods htime := by
    obtain ⟨hconclusion, hwait, -⟩ :=
      run_eq limits env argv script (ending_of_floods hstart hfloods htime)
    exact ⟨hconclusion, hwait⟩
  done hstart hquiet time hdone htime := by
    obtain ⟨hconclusion, hwait, -⟩ :=
      run_eq limits env argv script (ending_of_isDoneAt hstart hquiet hdone htime)
    exact ⟨hconclusion, hwait⟩
  late hstart hquiet hlate := by
    obtain ⟨hconclusion, hwait, -⟩ :=
      run_eq limits env argv script (ending_of_late hstart hquiet hlate)
    refine ⟨hconclusion, fun deadline hdeadline => hwait.trans ?_⟩
    rw [wait?, hdeadline, Option.getD_some]
  inTime := exists_wait
  success outcome h := by
    obtain ⟨hconclusion, hwait, hkilled⟩ := run_eq limits env argv script rfl
    cases hending : ending limits script with
    | finished time =>
        rw [hending] at hconclusion hwait hkilled
        obtain rfl := Conclusion.finished.inj (hconclusion.symm.trans h)
        obtain ⟨-, hquiet, hdone, htime⟩ := ending_eq_finished_iff.1 hending
        refine ⟨?_, ?_, hwait, Bool.eq_false_iff.2 fun h => hkilled.1 h rfl⟩
        · have hwritten := written_le hquiet htime
          rw [written_of_isDoneAt horderly hdone] at hwritten
          exact_mod_cast hwritten
        · obtain ⟨closes, exits, -, hexits, rfl⟩ := hdone
          exact ⟨exits, hexits, le_max_right _ _⟩
    | refused text =>
        rw [hending] at hconclusion
        cases hconclusion.symm.trans h
    | broken text =>
        rw [hending] at hconclusion
        cases hconclusion.symm.trans h
    | timedOut =>
        rw [hending] at hconclusion
        cases hconclusion.symm.trans h
    | overflowed time =>
        rw [hending] at hconclusion
        cases hconclusion.symm.trans h
  failure wait hwait hfailed := by
    obtain ⟨hconclusion, hwaits, hkilled⟩ := run_eq limits env argv script rfl
    have hfinished : ∀ time, ending limits script ≠ .finished time := by
      intro time hending
      rw [hending] at hconclusion
      obtain h | h := hfailed
      · cases hconclusion.symm.trans h
      · cases hconclusion.symm.trans h
    rw [hkilled, stop_ne_unneeded_iff (hwaits.symm.trans hwait) hfinished, ← hasExited_iff,
      Bool.not_eq_true]

/-- The promise is kept by the run of every child; and a watch over a child that was started comes
to the same, in whatever order it hears of what happens. -/
theorem run_isBounded (limits : Limits) (env : Environment) (argv : Argv) (script : Script)
    (horderly : script.IsOrderly) :
    IsBounded limits argv script (run limits env argv script) ∧
      (script.start = .started → Apart limits script →
        (∃ line, Timeline limits script line) ∧
        ∀ line, Timeline limits script line →
          Matches limits script ((Watch.ofLimits limits).follow line)) := by
  refine ⟨isBounded horderly, fun hstart hapart => ⟨exists_timeline limits script, ?_⟩⟩
  intro line hline
  exact hline.follow_matches hstart horderly hapart

/-- A child that writes two bytes on each stream, closes both, and is never seen to exit. -/
def lingering : Script where
  chunks := [⟨100, .out, [72, 105]⟩, ⟨200, .err, [79, 107]⟩]
  closes := some 500
  exits := none
  elusive := true

/-- Three bytes and two seconds. -/
def tight : Limits := { maxOutputBytes := 3, timeout := .ofInt 2 }

theorem floods_lingering : lingering.Floods tight.maxOutputBytes 200 :=
  overflow?_eq_some_iff.1 (by decide)

theorem apart_lingering : Apart tight lingering where
  floods time h hdeadline := by
    obtain rfl : time = 200 := h.unique floods_lingering
    exact absurd hdeadline (by decide +kernel)
  done := fun _ ⟨_, _, _, hexits, _⟩ => nomatch hexits
  exit := nofun
  floodsExit := nofun

theorem run_isBounded_lingering :
    lingering.IsOrderly ∧ lingering.start = .started ∧ Apart tight lingering ∧
      IsBounded tight ⟨"curl", ["http://a"]⟩ lingering
        (run tight [] ⟨"curl", ["http://a"]⟩ lingering) ∧
      (run tight [] ⟨"curl", ["http://a"]⟩ lingering).conclusion = .failed .outputLimit ∧
      (run tight [] ⟨"curl", ["http://a"]⟩ lingering).wait? = some (1 / 5) ∧
      (run tight [] ⟨"curl", ["http://a"]⟩ lingering).killed = true ∧
      ∀ line, Timeline tight lingering line →
        Matches tight lingering ((Watch.ofLimits tight).follow line) := by
  have horderly : lingering.IsOrderly := by
    rintro closes ⟨⟩
    decide
  obtain ⟨hbounded, hwatch⟩ :=
    run_isBounded tight [] ⟨"curl", ["http://a"]⟩ lingering horderly
  have htime : tight.timeout.Exceeds (seconds 200) := .inr (by decide +kernel)
  obtain ⟨hconclusion, hwait⟩ := hbounded.flooded rfl 200 floods_lingering htime
  have hkilled := (hbounded.failure _ hwait (.inl hconclusion)).2
    (fun ⟨_, _, _, hexits, _⟩ => nomatch hexits)
  exact ⟨horderly, rfl, apart_lingering, hbounded, hconclusion, hwait.trans (by decide +kernel),
    hkilled, (hwatch rfl apart_lingering).2⟩

/-- A silent child exceeds a limit below zero from the start, and yet its run succeeds: only bytes
that arrive are held against the limit. -/
theorem not_outputLimit_silent :
    IsLeast {t | (-1 : Int) < Script.written {} t} 0 ∧
      ({ maxOutputBytes := -1 } : Limits).timeout.Exceeds (seconds 0) ∧
      (run { maxOutputBytes := -1 } [("PATH", "/usr/bin:/bin")] ⟨"curl", ["http://a.test"]⟩
        {}).conclusion = .finished ⟨"", "", 0, 0⟩ := by
  refine ⟨⟨by decide, fun t _ => Nat.zero_le t⟩, .inr (by decide +kernel), ?_⟩
  decide +kernel

end Child

end CurlWarden
