import CurlWarden.Proofs.Child.Timeline
import CurlWarden.Proofs.Session.Concurrency

/-!
# Calls that are made together do not interfere

Calls share a gate and a clock, and one loop listens to all of their children. None of this shows in
an answer: it is that of the same call made alone (`Answer.Agrees`), whatever the other calls are and
however many are admitted at once.

That one loop listens to all is described by `Watches`, which hears of what happens to the children
in any order. What it decides about one of them is what a watch over that child alone decides
(`Watches.decided_follow`), and the times that matter are those since the child's own start
(`Watch.follow_since`). `callAll_isolated` puts both together.
-/

namespace CurlWarden

namespace Child

/-! ### Times since a start -/

/-- An occurrence, with the time since `start`. -/
def Occurrence.since (start : Rat) (occurrence : Occurrence) : Occurrence :=
  ⟨occurrence.time - start, occurrence.signal⟩

/-- A decision, with the time since `start`. -/
def since (start : Rat) (decision : Rat × Verdict × Bool) : Rat × Verdict × Bool :=
  (decision.1 - start, decision.2)

/-- A watch decides the same, whenever its child is started. -/
theorem Watch.follow_since (watch : Watch) (start : Rat) (line : List Occurrence) :
    watch.follow (line.map (Occurrence.since start)) = (watch.follow line).map (since start) := by
  induction line generalizing watch with
  | nil => rfl
  | cons occurrence line ih =>
      have hsignal : (occurrence.since start).signal = occurrence.signal := rfl
      rw [List.map_cons, Watch.follow, Watch.follow, hsignal]
      cases (watch.hear occurrence.signal).verdict? occurrence.signal with
      | none => exact ih _
      | some verdict => rfl

/-! ### One loop for all children -/

/-- What is known of several children, by the places of their calls, and what is decided. -/
structure Watches where
  watch : Nat → Watch
  decided : Nat → Option (Rat × Verdict × Bool)

namespace Watches

variable {watches : Watches} {i : Nat}

/-- The watches over children that are all under the same limits. -/
def ofLimits (limits : Limits) : Watches := ⟨fun _ => .ofLimits limits, fun _ => none⟩

/-- Takes note of what happens to the child of call number `i`, unless it is no longer listened to. -/
def hear (watches : Watches) (i : Nat) (occurrence : Occurrence) : Watches :=
  match watches.decided i with
  | some _ => watches
  | none =>
    let watch := (watches.watch i).hear occurrence.signal
    { watch := Function.update watches.watch i watch
      decided := Function.update watches.decided i
        ((watch.verdict? occurrence.signal).map fun verdict =>
          (occurrence.time, verdict, watch.kills verdict)) }

/-- Listens to everything that happens, in the order of `line`. -/
def follow (watches : Watches) : List (Nat × Occurrence) → Watches
  | [] => watches
  | (i, occurrence) :: line => (watches.hear i occurrence).follow line

/-- What of `line` happens to the child of call number `i`. -/
def heardOf (i : Nat) (line : List (Nat × Occurrence)) : List Occurrence :=
  (line.filter (·.1 = i)).map (·.2)

/-- What happens to one child changes nothing for the others. -/
theorem hear_of_ne (watches : Watches) {j : Nat} (h : i ≠ j) (occurrence : Occurrence) :
    (watches.hear j occurrence).watch i = watches.watch i ∧
      (watches.hear j occurrence).decided i = watches.decided i := by
  unfold hear
  split
  · exact ⟨rfl, rfl⟩
  · exact ⟨Function.update_of_ne h _ _, Function.update_of_ne h _ _⟩

theorem decided_hear_of_some {decision : Rat × Verdict × Bool}
    (h : watches.decided i = some decision) (j : Nat) (occurrence : Occurrence) :
    (watches.hear j occurrence).decided i = some decision := by
  by_cases hij : i = j
  · subst hij
    rw [hear, h]
    exact h
  · rw [(watches.hear_of_ne hij occurrence).2, h]

theorem decided_follow_of_some {decision : Rat × Verdict × Bool}
    (h : watches.decided i = some decision) (line : List (Nat × Occurrence)) :
    (watches.follow line).decided i = some decision := by
  induction line generalizing watches with
  | nil => exact h
  | cons event line ih => exact ih (decided_hear_of_some h event.1 event.2)

/-- What is decided about a child is what a watch over this child alone decides, whatever happens to
the others in between. -/
theorem decided_follow (h : watches.decided i = none) (line : List (Nat × Occurrence)) :
    (watches.follow line).decided i = (watches.watch i).follow (heardOf i line) := by
  -- By induction on the line: what happens to another child is passed over on both sides.
  induction line generalizing watches with
  | nil => exact h
  | cons event line ih =>
      obtain ⟨j, occurrence⟩ := event
      by_cases hij : i = j
      · subst hij
        have hheard : heardOf i ((i, occurrence) :: line) = occurrence :: heardOf i line := by
          simp [heardOf]
        rw [hheard, Watch.follow, follow]
        have hwatch : (watches.hear i occurrence).watch i
            = (watches.watch i).hear occurrence.signal := by
          simp [hear, h]
        have hdecided : (watches.hear i occurrence).decided i =
            (((watches.watch i).hear occurrence.signal).verdict? occurrence.signal).map
              fun verdict => (occurrence.time, verdict,
                ((watches.watch i).hear occurrence.signal).kills verdict) := by
          simp [hear, h]
        cases hverdict : ((watches.watch i).hear occurrence.signal).verdict?
            occurrence.signal with
        | none =>
            rw [hverdict] at hdecided
            rw [ih hdecided, hwatch]
        | some verdict =>
            rw [hverdict] at hdecided
            exact decided_follow_of_some hdecided line
      · have hheard : heardOf i ((j, occurrence) :: line) = heardOf i line := by
          simp [heardOf, Ne.symm hij]
        obtain ⟨hwatch, hdecided⟩ := watches.hear_of_ne hij occurrence
        rw [hheard, ← hwatch]
        exact ih (hdecided.trans h)

/-- Whatever happens to other children in between, a child that is started at `start` comes to what
its run says. -/
theorem follow_matches {limits : Limits} {script : Script} {start : Rat}
    {line : List (Nat × Occurrence)} (hstart : script.start = .started)
    (horderly : script.IsOrderly) (hapart : Apart limits script)
    (hline : Timeline limits script ((heardOf i line).map (Occurrence.since start))) :
    Matches limits script ((((ofLimits limits).follow line).decided i).map (Child.since start)) := by
  have hown : ((ofLimits limits).follow line).decided i
      = (Watch.ofLimits limits).follow (heardOf i line) := decided_follow rfl line
  rw [hown, ← Watch.follow_since]
  exact hline.follow_matches hstart horderly hapart

end Watches

end Child

/-! ### Answers -/

/-- Two answers that differ at most in when their calls got their slots and ended. -/
structure Answer.Agrees (a b : Answer) : Prop where
  /-- The same command was refused for the same reason, or run with the same arguments in the same
  environment, with the same end, and its child was killed or not. -/
  probe : a.probe = b.probe
  /-- The same was reported, or the same fault escaped. -/
  report : a.report = b.report
  /-- The slots were held for the same time. -/
  duration : a.stay.finish.time - a.stay.slot.time = b.stay.finish.time - b.stay.slot.time

namespace Session

variable {session alone : Session} {env : Environment} {calls : List Call} {call : Call} {i : Nat}

/-- How long a call holds its slot does not depend on when it gets it. -/
theorem Gate.duration_stay (slot : Moment) (wait : Option Rat) :
    (stay slot wait).finish.time - (stay slot wait).slot.time = wait.elim 0 (max · 0) := by
  cases wait with
  | none => exact sub_self slot.time
  | some wait =>
      show (slot.after wait).time - slot.time = max wait 0
      rw [Moment.after]
      split
      · next hle => rw [max_eq_right hle, sub_self]
      · next hlt => rw [max_eq_left (not_le.1 hlt).le, add_sub_cancel_left]

/-- The answer to a call is made of the call, the options and the environment. -/
theorem exists_answer (session : Session) (env : Environment) (hcall : calls[i]? = some call) :
    ∃ answer, (session.callAll env calls).2.1[i]? = some answer ∧
      answer.probe = .make session.options env call.script call.text ∧
      answer.report = answer.probe.answer session.options.keepStream ∧
      answer.stay = Gate.stay answer.stay.slot answer.probe.wait? := by
  obtain ⟨hi, rfl⟩ := List.getElem?_eq_some_iff.1 hcall
  have hanswers : i < (session.callAll env calls).2.1.length := by rwa [length_answers]
  have hstays : i < (session.stays env calls).length := by rwa [length_stays]
  have hanswer := getElem_answers hanswers hi hstays
  refine ⟨_, List.getElem?_eq_getElem hanswers, ?_, ?_, ?_⟩
  · rw [hanswer]
    rfl
  · rw [hanswer]
  · exact stay_of_mem_answers (List.getElem_mem hanswers)

/-- The answer to a call is that of the same call made alone in any session with the same options.
The children of the calls that are made together may be heard of in any order: what is decided about
the child of this call is what its run says. -/
theorem callAll_isolated (env : Environment) (hsame : alone.options = session.options)
    (hcall : calls[i]? = some call) :
    ∃ answer lone, (session.callAll env calls).2.1[i]? = some answer ∧
      (alone.callAll env [call]).2.1 = [lone] ∧ answer.Agrees lone ∧
      ∀ run, answer.probe = .ran run →
        run = Child.run session.options.limits env run.argv call.script ∧
        (call.script.start = .started → call.script.IsOrderly →
          Child.Apart session.options.limits call.script → ∀ line,
          Child.Timeline session.options.limits call.script ((Child.Watches.heardOf i line).map
            (Child.Occurrence.since answer.stay.slot.time)) →
          Child.Matches session.options.limits call.script
            ((((Child.Watches.ofLimits session.options.limits).follow line).decided i).map
              (Child.since answer.stay.slot.time))) := by
  obtain ⟨answer, hanswer, hprobe, hreport, hstay⟩ := exists_answer session env hcall
  have honly : [call][0]? = some call := rfl
  obtain ⟨lone, hlone, hprobe', hreport', hstay'⟩ := exists_answer alone env honly
  rw [hsame] at hprobe' hreport'
  have hsameProbe : answer.probe = lone.probe := hprobe.trans hprobe'.symm
  refine ⟨answer, lone, hanswer, ?_, ⟨hsameProbe, ?_, ?_⟩, ?_⟩
  · obtain ⟨only, honly⟩ : ∃ only, (alone.callAll env [call]).2.1 = [only] :=
      List.length_eq_one_iff.1 length_answers
    rw [honly] at hlone ⊢
    obtain rfl := Option.some.inj hlone
    rfl
  · rw [hreport, hreport', hsameProbe]
  · rw [hstay, hstay', Gate.duration_stay, Gate.duration_stay, hsameProbe]
  · intro run hran
    refine ⟨?_, fun hstart horderly hapart line hline => ?_⟩
    · rw [hprobe] at hran
      unfold Probe.make at hran
      split at hran
      · cases hran
      · obtain rfl := Probe.ran.inj hran
        rfl
    · exact Child.Watches.follow_matches hstart horderly hapart hline

/-- A session with the same options on a fresh clock, and with one slot. -/
def solo (session : Session) : Session := { session.restart with maxConcurrent := 1 }

theorem options_solo (session : Session) : session.solo.options = session.options := rfl

/-- The call that keeps its slot until the time is up. -/
theorem callAll_isolated_crowd :
    narrow.solo.options = narrow.options ∧
      crowd[2]? = some ⟨"curl http://a", "", { closes := some 300, exits := none }⟩ ∧
      ∃ answer lone, (narrow.callAll [] crowd).2.1[2]? = some answer ∧
        (narrow.solo.callAll [] [⟨"curl http://a", "", { closes := some 300, exits := none }⟩]).2.1
          = [lone] ∧
        answer.Agrees lone := by
  have hsame : narrow.solo.options = narrow.options := options_solo narrow
  have hcall : crowd[2]? = some ⟨"curl http://a", "", { closes := some 300, exits := none }⟩ := rfl
  obtain ⟨answer, lone, hanswer, hlone, hagrees, -⟩ := callAll_isolated [] hsame hcall
  exact ⟨hsame, hcall, answer, lone, hanswer, hlone, hagrees⟩

end Session

end CurlWarden
