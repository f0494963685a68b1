import CurlWarden.Proofs.Child.Ending
import Mathlib.Data.List.Sort

/-!
# Watching a child

A run ends as the order of a few moments says (`Proofs.Child.Ending`). Whoever watches over a child
does not see these moments; it hears of one thing after another. Two readers draw on one budget of
bytes, the streams are closed, the child exits, and a timer goes off. This module follows such a
watch step by step.

What happens at one moment may be heard of in any order, with these exceptions
(`Occurrence.Precedes`): a reader has read what is in its stream before it hears that the stream is
closed; an exit at the very start has happened before anything else is looked at; and without time
nothing is read at all.

* `Watch.Knows` — what the watch knows after some signals; `Knows.hear` is its step lemma.
* `Watch.Undecided` — what holds of the signals while nothing is decided; `Undecided.hear` is its
  step lemma.
-/

namespace CurlWarden.Child

/-! ### What can be heard -/

/-- What whoever watches a child hears of it. -/
inductive Signal where
  | wrote (stream : Stream) (count : Nat)
  | closed (stream : Stream)
  | exited (code : Option Int)
  | timeUp
  deriving DecidableEq, Repr

def Signal.bytes : Signal → Nat
  | .wrote _ count => count
  | .closed _ => 0
  | .exited _ => 0
  | .timeUp => 0

/-- A signal, with its time in seconds after the start of the child. -/
structure Occurrence where
  time : Rat
  signal : Signal
  deriving DecidableEq, Repr

namespace Occurrence

/-- Has `a` been heard of when `b` is? -/
inductive Precedes : Occurrence → Occurrence → Prop where
  | earlier {a b : Occurrence} (h : a.time < b.time) : Precedes a b
  | content {time : Rat} {stream : Stream} {count : Nat} :
      Precedes ⟨time, .wrote stream count⟩ ⟨time, .closed stream⟩
  | exit {code : Option Int} {signal : Signal} (h : ∀ other, signal ≠ .exited other) :
      Precedes ⟨0, .exited code⟩ ⟨0, signal⟩
  | alarmWrote {stream : Stream} {count : Nat} : Precedes ⟨0, .timeUp⟩ ⟨0, .wrote stream count⟩
  | alarmClosed {stream : Stream} : Precedes ⟨0, .timeUp⟩ ⟨0, .closed stream⟩

end Occurrence

/-- Everything that can be heard of a child that behaves as scripted, under the limits. -/
def occurrences (limits : Limits) (script : Script) : List Occurrence :=
  script.chunks.map (fun c => ⟨seconds c.time, .wrote c.stream c.bytes.length⟩) ++
    (script.closes.toList.flatMap fun t =>
      [⟨seconds t, .closed .out⟩, ⟨seconds t, .closed .err⟩]) ++
    script.exits.toList.map (fun t => ⟨seconds t, .exited script.exitCode⟩) ++
    (deadline? limits).toList.map fun t => ⟨t, .timeUp⟩

/-- An order in which everything may be heard. -/
structure Timeline (limits : Limits) (script : Script) (line : List Occurrence) : Prop where
  perm : line.Perm (occurrences limits script)
  ordered : line.Pairwise fun a b => ¬ b.Precedes a

/-! ### The watch -/

/-- What is known of a child that is watched. -/
structure Watch where
  /-- How many more bytes may come, on both streams together. -/
  budget : Int
  outClosed : Bool := false
  errClosed : Bool := false
  /-- The exit, once it has been heard of, with its code if that is known. -/
  exit : Option (Option Int) := none
  deriving DecidableEq, Repr

/-- How a watch ends. -/
inductive Verdict where
  | finished
  | overflowed
  | timedOut
  deriving DecidableEq, Repr

namespace Watch

def ofLimits (limits : Limits) : Watch where
  budget := limits.maxOutputBytes

/-- Takes note of a signal. -/
def hear (watch : Watch) : Signal → Watch
  | .wrote _ count => { watch with budget := watch.budget - count }
  | .closed .out => { watch with outClosed := true }
  | .closed .err => { watch with errClosed := true }
  | .exited code => { watch with exit := some code }
  | .timeUp => watch

section
variable (watch : Watch) (signal : Signal)

@[simp] theorem budget_hear : (watch.hear signal).budget = watch.budget - signal.bytes := by
  rcases signal with _ | (_ | _) | _ | _ <;> simp [hear, Signal.bytes]

@[simp] theorem outClosed_hear :
    (watch.hear signal).outClosed = (watch.outClosed || signal = .closed .out) := by
  rcases signal with _ | (_ | _) | _ | _ <;> simp [hear]

@[simp] theorem errClosed_hear :
    (watch.hear signal).errClosed = (watch.errClosed || signal = .closed .err) := by
  rcases signal with _ | (_ | _) | _ | _ <;> simp [hear]

theorem exit_hear_exited (code : Option Int) : (watch.hear (.exited code)).exit = some code := rfl

theorem exit_hear_of_ne (h : ∀ code, signal ≠ .exited code) :
    (watch.hear signal).exit = watch.exit := by
  rcases signal with _ | (_ | _) | code | _ <;> simp_all [hear]

end

/-- Is there nothing left to wait for? -/
def isDone (watch : Watch) : Bool := watch.outClosed && watch.errClosed && watch.exit.isSome

/-- What follows from the signal heard last, if it decides. -/
def verdict? (watch : Watch) : Signal → Option Verdict
  | .wrote _ count => if count ≠ 0 ∧ watch.budget < 0 then some .overflowed else none
  | .closed _ => if watch.isDone then some .finished else none
  | .exited _ => if watch.isDone then some .finished else none
  | .timeUp => some .timedOut

/-- Is the child killed? Not if it is done, and not if it is known to have exited. -/
def kills (watch : Watch) (verdict : Verdict) : Bool :=
  verdict ≠ .finished && watch.exit.join.isNone

/-- Listens until something decides: when, how, and whether the child is killed. -/
def follow (watch : Watch) : List Occurrence → Option (Rat × Verdict × Bool)
  | [] => none
  | occurrence :: rest =>
    let watch := watch.hear occurrence.signal
    match watch.verdict? occurrence.signal with
    | some verdict => some (occurrence.time, verdict, watch.kills verdict)
    | none => watch.follow rest

/-! ### What the watch knows -/

def bytesIn (signals : List Signal) : Nat := (signals.map Signal.bytes).sum

/-- What is known after the signals `past`. -/
structure Knows (limits : Limits) (past : List Signal) (watch : Watch) : Prop where
  budget : watch.budget = limits.maxOutputBytes - bytesIn past
  outClosed : watch.outClosed = true ↔ .closed .out ∈ past
  errClosed : watch.errClosed = true ↔ .closed .err ∈ past
  exited : ∀ code, watch.exit = some code → .exited code ∈ past
  running : watch.exit = none → ∀ code, .exited code ∉ past

/-- Everything that is waited for is among the signals. -/
structure Complete (past : List Signal) : Prop where
  out : .closed .out ∈ past
  err : .closed .err ∈ past
  exit : ∃ code, .exited code ∈ past

/-- What holds of the signals heard so far while nothing is decided. -/
structure Undecided (limits : Limits) (past : List Signal) : Prop where
  onTime : .timeUp ∉ past
  within : 0 < bytesIn past → bytesIn past ≤ limits.maxOutputBytes
  incomplete : ¬ Complete past

section
variable {limits : Limits} {past : List Signal} {watch : Watch} {signal : Signal}

theorem knows_ofLimits (limits : Limits) : Knows limits [] (ofLimits limits) where
  budget := by simp [ofLimits, bytesIn]
  outClosed := by simp [ofLimits]
  errClosed := by simp [ofLimits]
  exited := nofun
  running := by simp

theorem undecided_nil (limits : Limits) : Undecided limits [] where
  onTime := by simp
  within := by simp [bytesIn]
  incomplete h := by simpa using h.out

theorem bytesIn_append_singleton (past : List Signal) (signal : Signal) :
    bytesIn (past ++ [signal]) = bytesIn past + signal.bytes := by
  simp [bytesIn]

theorem Knows.hear (h : Knows limits past watch) :
    Knows limits (past ++ [signal]) (watch.hear signal) where
  budget := by
    rw [budget_hear, h.budget, bytesIn_append_singleton]
    omega
  outClosed := by simp [h.outClosed, @eq_comm _ signal]
  errClosed := by simp [h.errClosed, @eq_comm _ signal]
  exited := by
    by_cases hexit : ∃ code, signal = .exited code
    · obtain ⟨code, rfl⟩ := hexit
      simp [exit_hear_exited]
    · rw [exit_hear_of_ne watch signal (not_exists.1 hexit)]
      exact fun code hcode => List.mem_append_left _ (h.exited code hcode)
  running := by
    by_cases hexit : ∃ code, signal = .exited code
    · obtain ⟨code, rfl⟩ := hexit
      simp [exit_hear_exited]
    · rw [exit_hear_of_ne watch signal (not_exists.1 hexit)]
      intro hnone code hmem
      rcases List.mem_append.1 hmem with hmem | hmem
      · exact h.running hnone code hmem
      · exact hexit ⟨code, (List.mem_singleton.1 hmem).symm⟩

theorem Knows.isDone_iff (h : Knows limits past watch) :
    watch.isDone = true ↔ Complete past := by
  have hexit : watch.exit.isSome = true ↔ ∃ code, .exited code ∈ past := by
    cases hwatch : watch.exit with
    | none => simpa using h.running hwatch
    | some code => simpa using ⟨code, h.exited code hwatch⟩
  rw [isDone, Bool.and_eq_true, Bool.and_eq_true, h.outClosed, h.errClosed, hexit]
  exact ⟨fun ⟨⟨hout, herr⟩, hexit⟩ => ⟨hout, herr, hexit⟩,
    fun ⟨hout, herr, hexit⟩ => ⟨⟨hout, herr⟩, hexit⟩⟩

/-- Where the signal heard last decides nothing, nothing is decided yet. -/
theorem Undecided.hear (h : Undecided limits past) (hknows : Knows limits past watch)
    (hverdict : (watch.hear signal).verdict? signal = none) :
    Undecided limits (past ++ [signal]) := by
  have hnow : Knows limits (past ++ [signal]) (watch.hear signal) := hknows.hear
  have hbytes := bytesIn_append_singleton past signal
  have hincomplete : ∀ hdone : (watch.hear signal).isDone = false, ¬ Complete (past ++ [signal]) :=
    fun hdone hcomplete => by
      rw [hnow.isDone_iff.2 hcomplete] at hdone
      cases hdone
  cases signal with
  | wrote stream count =>
      have hcount : count ≠ 0 → 0 ≤ (watch.hear (.wrote stream count)).budget := by
        simpa [verdict?] using hverdict
      refine ⟨by simpa using h.onTime, fun hpos => ?_, fun hcomplete => ?_⟩
      · -- A chunk that is empty is not held against the budget, whatever is left of it.
        by_cases hzero : count = 0
        · rw [hbytes, Signal.bytes, hzero] at hpos ⊢
          exact h.within hpos
        · have hbudget := hcount hzero
          rw [hnow.budget] at hbudget
          omega
      · obtain ⟨hout, herr, code, hexit⟩ := hcomplete
        apply h.incomplete
        exact ⟨by simpa using hout, by simpa using herr, code, by simpa using hexit⟩
  | closed stream =>
      rw [Signal.bytes, Nat.add_zero] at hbytes
      refine ⟨by simpa using h.onTime, by simpa only [hbytes] using h.within, hincomplete ?_⟩
      simpa [verdict?] using hverdict
  | exited code =>
      rw [Signal.bytes, Nat.add_zero] at hbytes
      refine ⟨by simpa using h.onTime, by simpa only [hbytes] using h.within, hincomplete ?_⟩
      simpa [verdict?] using hverdict
  | timeUp => cases hverdict

end

end Watch

end CurlWarden.Child
