import CurlWarden.Proofs.Session.Delay
import CurlWarden.Proofs.Session.Semaphore
import CurlWarden.Session.Basic

/-!
# Calls that are made together

Whatever has happened in a session, the calls that are then made together share its gate as they
should: the promise is `IsServed`, and `callAll_isServed` says that it is kept in every session that
steps can lead to.

The promise is about the schedule that the gate computes, and about every run of a semaphore with a
queue: both take the same course.

It rests on what every step keeps (`IsReady`): that calls are admitted at all, and that the gate
that is kept between steps has all of its slots, free. `IsReady.step` is the step lemma,
`IsReady.steps` the run lemma.
-/

namespace CurlWarden

/-! ### Settings -/

namespace Settings

variable {settings changed : Settings} {sources : Sources}

theorem set_maxConcurrent {key : Key} {value : Literal}
    (h : settings.set key value = .ok changed) (hpos : 1 ≤ settings.maxConcurrent) :
    1 ≤ changed.maxConcurrent := by
  cases key with
  | dataDir => cases value <;> grind [set]
  | logName => cases value <;> grind [set]
  | timeout => grind [set]
  | maxOutputBytes => grind [set]
  | maxConcurrent => grind [set]
  | includeStream => cases hread : readTruth value <;> grind [set, Except.map]

theorem setAll_maxConcurrent (sources : Sources) (keys : List Key)
    (hpos : 1 ≤ settings.maxConcurrent) :
    1 ≤ (setAll sources keys settings).1.maxConcurrent := by
  induction keys generalizing settings with
  | nil => exact hpos
  | cons key keys ih =>
      rw [setAll]
      split
      · exact ih hpos
      · split
        · next hset => exact ih (set_maxConcurrent hset hpos)
        · exact ih hpos

/-- Settings that are loaded admit at least one call. -/
theorem load_maxConcurrent (h : load sources = .ok settings) : 1 ≤ settings.maxConcurrent := by
  simp only [load] at h
  split at h
  · obtain rfl := Except.ok.inj h
    exact setAll_maxConcurrent sources Key.all (by decide)
  · cases h

end Settings

/-- A probe waits for its child no longer than the timeout. -/
theorem Probe.wait?_make_le {options : Options} {env : Environment} {script : Child.Script}
    {text : String} {wait : Rat} (hfinite : options.limits.timeout.isFinite = true)
    (h : (make options env script text).wait? = some wait) :
    wait ≤ max options.limits.timeout.toRat 0 := by
  unfold make at h
  split at h
  · cases h
  · exact (Child.wait?_le (Child.deadline?_of_isFinite hfinite) h).2

namespace Session

variable {session : Session} {env : Environment} {calls : List Call}

/-! ### The gate between steps -/

/-- Calls are admitted, and the gate that is kept has as many slots as calls may be in progress, all
of them free. -/
structure IsReady (session : Session) : Prop where
  positive : 1 ≤ session.maxConcurrent
  capacity : ∀ gate, session.gate = some gate → gate.capacity = session.maxConcurrent
  free : ∀ gate, session.gate = some gate → gate.free = gate.capacity

theorem isReady_new : IsReady {} where
  positive := by decide
  capacity := nofun
  free := nofun

theorem IsReady.currentGate (h : IsReady session) :
    session.currentGate.capacity = session.maxConcurrent := by
  unfold Session.currentGate
  split
  · next gate hgate =>
    split
    · exact h.capacity gate hgate
    · rfl
  · rfl

theorem IsReady.step (h : IsReady session) (step : Step) :
    IsReady (session.step env step).1 := by
  cases step with
  | configure given =>
      simp only [Session.step]
      split
      · next hload => exact ⟨Settings.load_maxConcurrent hload, nofun, nofun⟩
      · exact h
  | callAll calls =>
      refine ⟨h.positive, ?_, ?_⟩
      · rintro gate ⟨⟩
        exact h.currentGate
      · rintro gate ⟨⟩
        exact Gate.free_settle _ _ _
  | restart => exact ⟨h.positive, h.capacity, h.free⟩

theorem IsReady.steps (h : IsReady session) (history : List Step) :
    IsReady (steps env session history).1 := by
  induction history generalizing session with
  | nil => exact h
  | cons step history ih => exact ih (h.step step)

/-! ### The answers -/

/-- The stays of calls that are made together. -/
def stays (session : Session) (env : Environment) (calls : List Call) : List Stay :=
  Gate.schedule session.currentGate.capacity session.now.afresh []
    (calls.map fun call => (session.probe env call).wait?)

theorem lasts_stays : Lasts (calls.map fun call => (session.probe env call).wait?)
    (session.stays env calls) := Gate.lasts_schedule _ _ _ _

theorem length_stays : (session.stays env calls).length = calls.length := by
  rw [← lasts_stays.length_eq, List.length_map]

/-- What the calls come to, in order: each its own probe and report. -/
theorem callAll_answers : (session.callAll env calls).2.1 =
    List.zipWith (fun call stay => ⟨session.probe env call,
      (session.probe env call).answer session.options.keepStream, stay⟩) calls
      (session.stays env calls) := by
  simp only [callAll, stays, List.map_map, Function.comp_def, List.zipWith_map_left]

theorem length_answers : (session.callAll env calls).2.1.length = calls.length := by
  rw [callAll_answers, List.length_zipWith, length_stays, Nat.min_self]

theorem getElem_answers {i : Nat} (hi : i < (session.callAll env calls).2.1.length)
    (hcall : i < calls.length) (hstay : i < (session.stays env calls).length) :
    (session.callAll env calls).2.1[i] = ⟨session.probe env calls[i],
      (session.probe env calls[i]).answer session.options.keepStream,
      (session.stays env calls)[i]⟩ := by
  simp only [callAll_answers, List.getElem_zipWith]

theorem map_stay_answers :
    (session.callAll env calls).2.1.map (·.stay) = session.stays env calls := by
  apply List.ext_getElem
  · rw [List.length_map, length_answers, length_stays]
  · intro i hi hstay
    have hcall : i < calls.length := by rwa [length_stays] at hstay
    rw [List.getElem_map, getElem_answers _ hcall hstay]

theorem callAll_now : (session.callAll env calls).1.now =
    Gate.lastEnd session.now.afresh ((session.stays env calls).map (·.finish)) := by
  simp only [callAll, stays, List.map_map, Function.comp_def]

theorem map_answers : (session.callAll env calls).2.1.map (fun answer =>
      (answer.probe, answer.report)) = calls.map fun call =>
    (session.probe env call, (session.probe env call).answer session.options.keepStream) := by
  apply List.ext_getElem
  · rw [List.length_map, length_answers, List.length_map]
  · intro i hi hcall
    rw [List.length_map] at hcall
    have hstay : i < (session.stays env calls).length := by rwa [length_stays]
    rw [List.getElem_map, List.getElem_map, getElem_answers _ hcall hstay]

theorem map_wait?_answers : (session.callAll env calls).2.1.map (·.probe.wait?) =
    calls.map fun call => (session.probe env call).wait? := by
  have hown : ((session.callAll env calls).2.1.map fun answer =>
        (answer.probe, answer.report)).map (·.1.wait?) =
      (calls.map fun call => (session.probe env call,
        (session.probe env call).answer session.options.keepStream)).map (·.1.wait?) :=
    congrArg _ map_answers
  rwa [List.map_map, List.map_map] at hown

theorem stay_of_mem_answers {answer : Answer} (h : answer ∈ (session.callAll env calls).2.1) :
    answer.stay = Gate.stay answer.stay.slot answer.probe.wait? := by
  obtain ⟨i, hi, rfl⟩ := List.getElem_of_mem h
  have hcall : i < calls.length := by rwa [length_answers] at hi
  have hstay : i < (session.stays env calls).length := by rwa [length_stays]
  have hwait : i < (calls.map fun call => (session.probe env call).wait?).length := by
    rwa [List.length_map]
  have hslot := lasts_stays.get hwait hstay
  simp only [List.get_eq_getElem, List.getElem_map] at hslot
  rw [getElem_answers _ hcall hstay]
  exact hslot

/-! ### The promise -/

/-- The semaphore of a session, with the calls of some answers in its queue. -/
def semaphore (session : Session) (answers : List Answer) : Semaphore :=
  .ofCalls session.maxConcurrent session.now.afresh (answers.map (·.probe.wait?))

/-- What is promised of calls that are made together in a session, where `after` is the session when
all have ended. -/
structure IsServed (session : Session) (env : Environment) (calls : List Call) (after : Session)
    (answers : List Answer) : Prop where
  /-- At least one call may be in progress. -/
  positive : 1 ≤ session.maxConcurrent
  /-- Each call has one answer, at its own place. -/
  own : answers.map (fun answer => (answer.probe, answer.report)) = calls.map fun call =>
    (session.probe env call, (session.probe env call).answer session.options.keepStream)
  /-- Each call holds its slot for as long as it waits for its child. -/
  lasting : ∀ answer ∈ answers,
    answer.stay = Gate.stay answer.stay.slot answer.probe.wait?
  /-- Each call has ended. -/
  ended : ∀ answer ∈ answers, answer.stay.finish.stamp ≤ after.now.stamp
  /-- At every time, and at every turn of it, the gate is safe and fair. -/
  fair : IsFair Moment.time session.maxConcurrent session.now.afresh (answers.map (·.stay)) ∧
    IsFair Moment.stamp session.maxConcurrent session.now.afresh (answers.map (·.stay))
  /-- Slots are given in rounds that are no further apart than the timeout. -/
  delay : ∀ i (h : i < answers.length), answers[i].stay.slot.time ≤
    session.now.time + (i / session.maxConcurrent : Nat) * max session.options.limits.timeout.toRat 0
  /-- In the end all slots are free. -/
  free : ∃ gate, after.gate = some gate ∧ gate.capacity = session.maxConcurrent ∧
    gate.free = session.maxConcurrent
  /-- A semaphore that lends slots to the first in the queue comes to an end. -/
  terminates : ∃ final, Semaphore.Run (session.semaphore answers) final ∧ final.IsOver
  /-- It always takes this course. -/
  course : ∀ final, Semaphore.Run (session.semaphore answers) final → final.IsOver →
    final.free = session.maxConcurrent ∧
      final.stays.map (·.stamps) = answers.map (·.stay.stamps)

/-- Steps of a session lead here. -/
def IsReachable (env : Environment) (session : Session) : Prop :=
  ∃ history, (Session.steps env {} history).1 = session

theorem IsReady.isFair {α : Type} [LinearOrder α] {view : Moment → α} (h : IsReady session)
    (hview : Moment.IsView view) : IsFair view session.maxConcurrent session.now.afresh
      ((session.callAll env calls).2.1.map (·.stay)) := by
  rw [map_stay_answers, stays, h.currentGate]
  exact isFair_schedule hview h.positive _ _

/-- The semaphore takes the course that the answers tell, and in the end all slots are free. -/
theorem IsReady.course (h : IsReady session) {final : Semaphore}
    (run : Semaphore.Run (session.semaphore (session.callAll env calls).2.1) final)
    (hover : final.IsOver) : final.free = session.maxConcurrent ∧
      final.stays.map (·.stamps) = (session.callAll env calls).2.1.map (·.stay.stamps) := by
  obtain ⟨hfree, hstamps⟩ := Semaphore.run_stamps h.positive run hover
  have hstays : (session.callAll env calls).2.1.map (·.stay.stamps)
      = (session.stays env calls).map (·.stamps) := by
    rw [← map_stay_answers, List.map_map]
    rfl
  rw [map_wait?_answers] at hstamps
  rw [hstays, stays, h.currentGate]
  exact ⟨hfree, hstamps⟩

/-- A call holds its slot for no longer than the timeout. -/
theorem finish_time_le (hfinite : session.options.limits.timeout.isFinite = true) :
    ∀ stay ∈ (session.callAll env calls).2.1.map (·.stay),
      stay.finish.time ≤ stay.slot.time + max session.options.limits.timeout.toRat 0 := by
  intro stay hstay
  obtain ⟨answer, hanswer, rfl⟩ := List.mem_map.1 hstay
  have hown : (answer.probe, answer.report) ∈ calls.map fun call => (session.probe env call,
      (session.probe env call).answer session.options.keepStream) := by
    rw [← map_answers]
    exact List.mem_map_of_mem hanswer
  obtain ⟨call, -, hcall⟩ := List.mem_map.1 hown
  obtain ⟨hprobe, -⟩ := Prod.mk.inj hcall
  rw [stay_of_mem_answers hanswer]
  apply Gate.finish_time_le _ _ (le_max_right _ _)
  intro wait hwait
  rw [← hprobe] at hwait
  exact Probe.wait?_make_le hfinite hwait

/-- Calls that are made together in a session that is ready are served. -/
theorem IsReady.isServed (h : IsReady session)
    (hfinite : session.options.limits.timeout.isFinite = true) (env : Environment)
    (calls : List Call) :
    IsServed session env calls (session.callAll env calls).1 (session.callAll env calls).2.1 where
  positive := h.positive
  own := map_answers
  lasting answer hanswer := stay_of_mem_answers hanswer
  ended answer hanswer := by
    have hstay : answer.stay ∈ session.stays env calls := by
      rw [← map_stay_answers]
      exact List.mem_map_of_mem hanswer
    rw [callAll_now]
    exact Gate.stamp_le_lastEnd_of_mem (List.mem_map_of_mem hstay)
  fair := ⟨h.isFair Moment.isView_time, h.isFair Moment.isView_stamp⟩
  delay i hi := by
    have hstay : i < ((session.callAll env calls).2.1.map (·.stay)).length := by
      rwa [List.length_map]
    have hslot := (h.isFair Moment.isView_time).slot_time_le h.positive (le_max_right _ _)
      (finish_time_le hfinite) i hstay
    rwa [List.getElem_map] at hslot
  free := ⟨_, rfl, h.currentGate, (Gate.free_settle _ _ _).trans h.currentGate⟩
  terminates := Semaphore.exists_run (Semaphore.keeps_ofCalls _ _ _) h.positive
  course _ run hover := h.course run hover

/-- Whatever has happened in a session, the calls that are then made together are served. -/
theorem callAll_isServed (hreachable : IsReachable env session)
    (hfinite : session.options.limits.timeout.isFinite = true) (calls : List Call) :
    IsServed session env calls (session.callAll env calls).1 (session.callAll env calls).2.1 := by
  obtain ⟨history, rfl⟩ := hreachable
  exact (isReady_new.steps history).isServed hfinite env calls

/-- A session with two slots and a timeout of one second. -/
def narrow : Session := (Session.steps [] {} [.configure
  [("timeout_seconds", .int 1), ("max_concurrent_requests", .int 2)]]).1

/-- A child that never ends, a command that is refused, a child that is never seen to exit, one that
cannot be started, and one that ends in time. -/
def crowd : List Call :=
  [⟨"curl http://a", "", { closes := none }⟩,
    ⟨"wget http://a", "", {}⟩,
    ⟨"curl http://a", "", { closes := some 300, exits := none }⟩,
    ⟨"curl http://a", "", { start := .refused "no memory" }⟩,
    ⟨"curl http://a", "", { closes := some 100, exits := some 100 }⟩]

theorem callAll_isServed_crowd :
    IsReachable [] narrow ∧ narrow.options.limits.timeout.isFinite = true ∧
      IsServed narrow [] crowd (narrow.callAll [] crowd).1 (narrow.callAll [] crowd).2.1 ∧
      narrow.maxConcurrent = 2 ∧
      crowd.map (fun call => (narrow.probe [] call).wait?)
        = [some 1, none, some 1, none, some (1 / 10)] := by
  have hreachable : IsReachable [] narrow := ⟨_, rfl⟩
  have hfinite : narrow.options.limits.timeout.isFinite = true := by decide +kernel
  exact ⟨hreachable, hfinite, callAll_isServed hreachable hfinite crowd, by decide +kernel,
    by decide +kernel⟩

end Session

end CurlWarden
