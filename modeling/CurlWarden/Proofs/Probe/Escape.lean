import CurlWarden.Proofs.Diagnostics.Faults
import CurlWarden.Proofs.Json.Grammar
import CurlWarden.Proofs.Probe.Safety

/-!
# What a probe comes to

A probe is meant to come to a report whatever happens. It does in most cases: a refusal, a failed
run and a start that breaks down become reports of a failure, and a child that finishes is reported
on with its body decoded if that is JSON and as it is if not (`Reports`).

The exceptions are described by what the child does. Numbers of more than 4300 digits and JSON that
nests too deep are faults that escape (`Escapes`), and a child that is never done is waited for
without end if the time of a run is infinite (`Child.IsEndless`). `make_returns` says that there are
no others.
-/

namespace CurlWarden

open Diagnostics (Pattern RuleSet)

/-- The child starts and then neither ends nor writes too much, and its time is never up. -/
structure Child.IsEndless (limits : Limits) (script : Script) : Prop where
  started : script.start = .started
  deadline : deadline? limits = none
  overflow : script.overflow? limits.maxOutputBytes = none
  done : script.done? = none

/-- The body of a report: the value of a text that is JSON, and else the text itself. -/
def Report.HoldsBody (body : String) (report : Report) : Prop :=
  Json.Value.read body.toList = .ok report.data ∨
    ¬ Json.IsJson body.toList ∧ report.data = .text body

namespace Probe

/-- The fault that escapes when a child has written `out` and `err`. The diagnostic stream is read
first, and in it the status code. -/
inductive Escapes (out err : String) : Fault → Prop where
  | status {count : Nat} (h : Pattern.status.TooLong err.toList count) :
      Escapes out err (.tooManyDigits count)
  | length {count : Nat} (hstatus : ∀ count, ¬ Pattern.status.TooLong err.toList count)
      (h : Pattern.length.TooLong err.toList count) : Escapes out err (.tooManyDigits count)
  | digits {count : Nat} (herr : ∀ pattern count, ¬ Pattern.TooLong pattern err.toList count)
      (h : Json.HasFault out.toList (.tooManyDigits count)) :
      Escapes out err (.tooManyDigits count)
  | depth {container : Json.Container}
      (herr : ∀ pattern count, ¬ Pattern.TooLong pattern err.toList count)
      (h : Json.HasFault out.toList (.tooDeep container)) : Escapes out err (.tooDeep container)

/-- What a report says about a probe. -/
inductive Reports (keepStream : Bool) : Probe → Report → Prop where
  | refused {refusal : Refusal} {report : Report} (h : report.IsFailure refusal.message) :
      Reports keepStream (.refused refusal) report
  | failed {run : Child.Run} {failure : Child.Failure} {report : Report}
      (hrun : run.conclusion = .failed failure) (h : report.IsFailure failure.message) :
      Reports keepStream (.ran run) report
  | broken {run : Child.Run} {text : String} {report : Report}
      (hrun : run.conclusion = .broken text) (h : report.IsFailure ("Execution error: " ++ text)) :
      Reports keepStream (.ran run) report
  | finished {run : Child.Run} {outcome : Child.Outcome} {report : Report}
      (hrun : run.conclusion = .finished outcome) (hbody : report.HoldsBody outcome.out)
      (hmetadata : (RuleSet.standard.read outcome.err).metadata = .ok report.metadata)
      (hstream : report.rawStream = if keepStream then some outcome.err else none) :
      Reports keepStream (.ran run) report

/-- Is the child waited for without end? -/
def IsEndless (probe : Probe) : Prop :=
  ∃ run, probe.run? = some run ∧ run.ending = .timedOut ∧ Child.deadline? run.limits = none

/-- The probe ends, and with this report. -/
def Returns (keepStream : Bool) (probe : Probe) (report : Report) : Prop :=
  ¬ probe.IsEndless ∧ probe.answer keepStream = .ok report

end Probe

/-! ### Runs without end -/

namespace Child

variable {limits : Limits} {script : Script}

/-- Without a deadline, every moment that comes is in time. -/
theorem inTime?_eq (h : deadline? limits = none) (time : Option Nat) :
    inTime? limits time = time := by
  have hpositive : limits.timeout.isPositive = true := by
    unfold deadline? at h
    split at h
    · assumption
    · cases h
  cases time with
  | none => rfl
  | some t => simp [inTime?, h, hpositive]

/-- A run that is only over when its time is up, and has all the time, belongs to a child without
end. -/
theorem isEndless_iff :
    IsEndless limits script ↔ ending limits script = .timedOut ∧ deadline? limits = none := by
  constructor
  · rintro ⟨hstart, hdeadline, hoverflow, hdone⟩
    refine ⟨?_, hdeadline⟩
    simp only [ending, hstart, inTime?_eq hdeadline, hoverflow, hdone]
  · rintro ⟨hending, hdeadline⟩
    unfold ending at hending
    split at hending
    · cases hending
    · cases hending
    · next hstart =>
      rw [inTime?_eq hdeadline, inTime?_eq hdeadline] at hending
      split at hending
      · cases hending
      · next hoverflow =>
        split at hending
        · cases hending
        · next hdone => exact ⟨hstart, hdeadline, hoverflow, hdone⟩

/-- A run finishes where its child is done in time, and then holds what the child wrote. -/
theorem conclusion_run_eq_finished_iff {env : Environment} {argv : Argv} {outcome : Outcome} :
    (run limits env argv script).conclusion = .finished outcome ↔
      ∃ time, ending limits script = .finished time ∧ outcome =
        ⟨script.textOn .out, script.textOn .err, script.exitCode.getD unknownExitCode, time⟩ := by
  show conclusion limits argv script (ending limits script) = .finished outcome ↔ _
  cases ending limits script with
  | finished time => simp [conclusion, eq_comm]
  | refused text => simp [conclusion]
  | broken text => simp [conclusion]
  | timedOut => simp [conclusion]
  | overflowed time => simp [conclusion]

end Child

/-! ### Bodies -/

section
variable {body : String} {fault : Fault}

/-- A body is taken, unless it has a fault. -/
theorem Payload.ofText_eq_error_iff : (Payload.ofText body).data = .error fault ↔
    (∃ count, fault = .tooManyDigits count ∧ Json.HasFault body.toList (.tooManyDigits count)) ∨
      ∃ container, fault = .tooDeep container ∧
        Json.HasFault body.toList (.tooDeep container) := by
  simp only [← Json.Value.read_isFault_iff]
  unfold ofText
  split
  · next data heq => simp [heq]
  · next why heq => simp [heq]
  · next count heq => simp [heq, Json.ReadError.IsFault, eq_comm]
  · next container heq => simp [heq, Json.ReadError.IsFault, eq_comm]

/-- A body that is taken is decoded if it is JSON, and else kept. -/
theorem Payload.of_ofText_eq_ok {data : Json.Value} (h : (Payload.ofText body).data = .ok data) :
    Json.Value.read body.toList = .ok data ∨ ¬ Json.IsJson body.toList ∧ data = .text body := by
  unfold ofText at h
  split at h
  · next v heq =>
    cases h
    exact .inl heq
  · next why heq =>
    cases h
    refine .inr ⟨fun hjson => ?_, rfl⟩
    obtain ⟨v, hv⟩ := Json.Value.read_isOk_iff.2 hjson
    rw [heq] at hv
    cases hv
  · cases h
  · cases h

end

/-! ### Children that finish -/

namespace Probe

section
variable {keepStream : Bool} {outcome : Child.Outcome} {out err : String} {fault : Fault}

/-- A diagnostic stream without overlong numbers is read. -/
theorem exists_metadata_iff :
    (∃ metadata, (RuleSet.standard.read err).metadata = .ok metadata) ↔
      ∀ pattern count, ¬ Pattern.TooLong pattern err.toList count := by
  cases hread : (RuleSet.standard.read err).metadata with
  | error fault =>
      constructor
      · rintro ⟨_, ⟨⟩⟩
      · intro h
        rcases RuleSet.standard_read_eq_error_iff.1 hread with
          ⟨count, hlong, -⟩ | ⟨-, count, hlong, -⟩
        · exact absurd hlong (h _ _)
        · exact absurd hlong (h _ _)
  | ok metadata =>
      refine ⟨fun _ => ?_, fun _ => ⟨metadata, rfl⟩⟩
      have hnone : ∀ fault, (RuleSet.standard.read err).metadata ≠ .error fault := by
        intro fault h
        rw [hread] at h
        cases h
      have hstatus : ∀ count, ¬ Pattern.status.TooLong err.toList count := by
        intro count h
        exact hnone _ (RuleSet.standard_read_eq_error_iff.2 (.inl ⟨count, h, rfl⟩))
      intro pattern count h
      rcases h.1 with rfl | rfl
      · exact hstatus count h
      · exact hnone _ (RuleSet.standard_read_eq_error_iff.2 (.inr ⟨hstatus, count, h, rfl⟩))

/-- A fault escapes from the diagnostic stream, or else from the body. -/
theorem escapes_iff : Escapes out err fault ↔
    (RuleSet.standard.read err).metadata = .error fault ∨
      (∃ metadata, (RuleSet.standard.read err).metadata = .ok metadata) ∧
        (Payload.ofText out).data = .error fault := by
  rw [RuleSet.standard_read_eq_error_iff, exists_metadata_iff, Payload.ofText_eq_error_iff]
  constructor
  · intro h
    cases h with
    | status h => exact .inl (.inl ⟨_, h, rfl⟩)
    | length hstatus h => exact .inl (.inr ⟨hstatus, _, h, rfl⟩)
    | digits herr h => exact .inr ⟨herr, .inl ⟨_, rfl, h⟩⟩
    | depth herr h => exact .inr ⟨herr, .inr ⟨_, rfl, h⟩⟩
  · intro h
    rcases h with (⟨count, h, rfl⟩ | ⟨hstatus, count, h, rfl⟩) |
      ⟨herr, ⟨count, rfl, h⟩ | ⟨container, rfl, h⟩⟩
    · exact .status h
    · exact .length hstatus h
    · exact .digits herr h
    · exact .depth herr h

theorem finished_of_error (h : (RuleSet.standard.read outcome.err).metadata = .error fault) :
    (finished keepStream outcome).1 = .error fault := by
  simp only [finished, h]

theorem finished_of_ok {metadata : Diagnostics.Metadata}
    (h : (RuleSet.standard.read outcome.err).metadata = .ok metadata) :
    (finished keepStream outcome).1 = (Payload.ofText outcome.out).data.map fun data =>
      { data, metadata, rawStream := if keepStream then some outcome.err else none } := by
  simp only [finished, h]

/-- Whatever a child leaves behind is reported on, unless a fault escapes. -/
theorem finished_eq_error_iff :
    (finished keepStream outcome).1 = .error fault ↔ Escapes outcome.out outcome.err fault := by
  rw [escapes_iff]
  cases hmetadata : (RuleSet.standard.read outcome.err).metadata with
  | error fault' =>
      rw [finished_of_error hmetadata]
      simp
  | ok metadata =>
      rw [finished_of_ok hmetadata]
      cases (Payload.ofText outcome.out).data <;> simp [Except.map]

/-- The report on a child that finished holds its body, its metadata and on request its stream. -/
theorem of_finished_eq_ok {report : Report} (h : (finished keepStream outcome).1 = .ok report) :
    report.HoldsBody outcome.out ∧
      (RuleSet.standard.read outcome.err).metadata = .ok report.metadata ∧
      report.rawStream = if keepStream then some outcome.err else none := by
  cases hmetadata : (RuleSet.standard.read outcome.err).metadata with
  | error fault =>
      rw [finished_of_error hmetadata] at h
      cases h
  | ok metadata =>
      rw [finished_of_ok hmetadata] at h
      cases hdata : (Payload.ofText outcome.out).data with
      | error fault =>
          rw [hdata] at h
          cases h
      | ok data =>
          rw [hdata] at h
          cases h
          exact ⟨Payload.of_ofText_eq_ok hdata, rfl, rfl⟩

end

/-! ### Probes -/

section
variable {options : Options} {env : Environment} {script : Child.Script} {text : String}

theorem isEndless_make_iff : (make options env script text).IsEndless ↔
    ∃ argv, checkText options.limits text = .ok argv ∧ Child.IsEndless options.limits script := by
  constructor
  · rintro ⟨run, hrun, hending, hdeadline⟩
    obtain ⟨argv, hcheck, rfl⟩ := exists_of_run?_make hrun
    exact ⟨argv, hcheck, Child.isEndless_iff.2 ⟨hending, hdeadline⟩⟩
  · rintro ⟨argv, hcheck, hendless⟩
    obtain ⟨hending, hdeadline⟩ := Child.isEndless_iff.1 hendless
    rw [make_eq_ran hcheck]
    exact ⟨_, rfl, hending, hdeadline⟩

section
variable {keepStream : Bool} {run : Child.Run}

theorem answer_of_failed {failure : Child.Failure} (h : run.conclusion = .failed failure) :
    (ran run).answer keepStream = .ok (.failure failure.message) := by
  simp only [answer, result, h, failed]

theorem answer_of_broken {text : String} (h : run.conclusion = .broken text) :
    (ran run).answer keepStream = .ok (.failure ("Execution error: " ++ text)) := by
  simp only [answer, result, h]

theorem answer_of_finished {outcome : Child.Outcome} (h : run.conclusion = .finished outcome) :
    (ran run).answer keepStream = (finished keepStream outcome).1 := by
  simp only [answer, result, h]

end

/-- Every report on a probe says what it should. -/
theorem reports_of_answer {keepStream : Bool} {probe : Probe} {report : Report}
    (h : probe.answer keepStream = .ok report) : Reports keepStream probe report := by
  cases probe with
  | refused refusal =>
      cases h
      exact .refused (Report.failure_isFailure _)
  | ran run =>
      cases hrun : run.conclusion with
      | failed failure =>
          rw [answer_of_failed hrun] at h
          cases h
          exact .failed hrun (Report.failure_isFailure _)
      | broken text =>
          rw [answer_of_broken hrun] at h
          cases h
          exact .broken hrun (Report.failure_isFailure _)
      | finished outcome =>
          rw [answer_of_finished hrun] at h
          obtain ⟨hbody, hmetadata, hstream⟩ := of_finished_eq_ok h
          exact .finished hrun hbody hmetadata hstream

/-- Only a child that finishes can leave a fault behind. -/
theorem answer_ran_eq_error_iff {keepStream : Bool} {run : Child.Run} {fault : Fault} :
    (ran run).answer keepStream = .error fault ↔
      ∃ outcome, run.conclusion = .finished outcome ∧ Escapes outcome.out outcome.err fault := by
  cases hrun : run.conclusion with
  | failed failure =>
      rw [answer_of_failed hrun]
      simp
  | broken text =>
      rw [answer_of_broken hrun]
      simp
  | finished outcome =>
      rw [answer_of_finished hrun, finished_eq_error_iff]
      simp

theorem answer_make_eq_error_iff {fault : Fault} :
    (make options env script text).answer options.keepStream = .error fault ↔
      ∃ argv time, checkText options.limits text = .ok argv ∧
        Child.ending options.limits script = .finished time ∧
        Escapes (script.textOn .out) (script.textOn .err) fault := by
  cases hcheck : checkText options.limits text with
  | error refusal =>
      rw [make_eq_refused hcheck]
      constructor
      · rintro ⟨⟩
      · rintro ⟨_, _, ⟨⟩, -⟩
  | ok argv =>
      rw [make_eq_ran hcheck, answer_ran_eq_error_iff]
      simp only [Child.conclusion_run_eq_finished_iff]
      constructor
      · rintro ⟨_, ⟨time, hending, rfl⟩, hescapes⟩
        exact ⟨argv, time, rfl, hending, hescapes⟩
      · rintro ⟨_, time, -, hending, hescapes⟩
        exact ⟨_, ⟨time, hending, rfl⟩, hescapes⟩

end

/-- A probe returns a report that says what it should, unless its child is without end or leaves a
fault behind. -/
theorem make_returns (options : Options) (env : Environment) (script : Child.Script)
    (text : String) :
    ((∃ report, (make options env script text).Returns options.keepStream report) ↔
      ∀ argv, checkText options.limits text = .ok argv →
        ¬ Child.IsEndless options.limits script ∧
        ∀ time, Child.ending options.limits script = .finished time →
          ∀ fault, ¬ Escapes (script.textOn .out) (script.textOn .err) fault) ∧
    (∀ report, (make options env script text).Returns options.keepStream report →
      Reports options.keepStream (make options env script text) report) ∧
    (∀ fault, (make options env script text).answer options.keepStream = .error fault ↔
      ∃ argv time, checkText options.limits text = .ok argv ∧
        Child.ending options.limits script = .finished time ∧
        Escapes (script.textOn .out) (script.textOn .err) fault) := by
  refine ⟨?_, fun report h => reports_of_answer h.2, fun fault => answer_make_eq_error_iff⟩
  constructor
  · intro h argv hcheck
    obtain ⟨report, hends, hanswer⟩ := h
    constructor
    · intro hendless
      apply hends
      exact isEndless_make_iff.2 ⟨argv, hcheck, hendless⟩
    · intro time hending fault hescapes
      rw [answer_make_eq_error_iff.2 ⟨argv, time, hcheck, hending, hescapes⟩] at hanswer
      cases hanswer
  · intro h
    cases hanswer : (make options env script text).answer options.keepStream with
    | error fault =>
        obtain ⟨argv, time, hcheck, hending, hescapes⟩ := answer_make_eq_error_iff.1 hanswer
        exact absurd hescapes ((h argv hcheck).2 time hending fault)
    | ok report =>
        refine ⟨report, fun hendless => ?_, hanswer⟩
        obtain ⟨argv, hcheck, hscript⟩ := isEndless_make_iff.1 hendless
        exact (h argv hcheck).1 hscript

/-- A child that writes nothing but the digit one, as often as it likes. -/
def onesScript (count : Nat) : Child.Script where
  chunks := [⟨0, .out, List.replicate count 0x31⟩]

theorem run_replicate (count : Nat) (read : List Char) :
    Text.Utf8.run read none (List.replicate count 0x31) =
      read.reverse ++ List.replicate count '1' := by
  induction count generalizing read with
  | zero => rw [List.replicate_zero, List.replicate_zero, List.append_nil]; rfl
  | succ count ih =>
      rw [List.replicate_succ, List.replicate_succ]
      show Text.Utf8.run ('1' :: read) none (List.replicate count 0x31) = _
      rw [ih, List.reverse_cons, List.append_assoc, List.singleton_append]

theorem textOn_out_onesScript (count : Nat) :
    ((onesScript count).textOn .out).toList = List.replicate count '1' := by
  have hbytes : (onesScript count).bytesOn .out = List.replicate count 0x31 := by
    simp [Child.Script.bytesOn, onesScript]
  rw [Child.Script.textOn, hbytes, Text.Utf8.decode, run_replicate]
  simp

theorem textOn_err_onesScript (count : Nat) : ((onesScript count).textOn .err).toList = [] := by
  have hbytes : (onesScript count).bytesOn .err = [] := by
    simp [Child.Script.bytesOn, onesScript]
  rw [Child.Script.textOn, hbytes]
  rfl

/-- Ones alone are a fault as soon as they are too many. -/
theorem hasFault_ones {count : Nat} (h : Json.maxDigits < count) :
    Json.HasFault (List.replicate count '1') (.tooManyDigits count) := by
  obtain ⟨more, rfl⟩ := Nat.exists_eq_add_of_lt h
  have hdigits : Json.IsDigits (List.replicate (Json.maxDigits + more + 1) '1') := by
    intro d hd
    rw [List.eq_of_mem_replicate hd]
    decide
  have hwhole : Json.IsWhole (List.replicate (Json.maxDigits + more + 1) '1') := by
    refine .inr ⟨?_, hdigits, ?_⟩
    · rw [List.replicate_succ]
      exact List.cons_ne_nil _ _
    · rw [List.replicate_succ, List.head?_cons]
      decide
  have hends : Json.EndsValue [] := nofun
  refine ⟨[], _, (List.nil_append _).symm, nofun, .inl ⟨_, rfl, ?_⟩⟩
  exact ⟨[], _, [], by simp, .inl rfl, hwhole, List.length_replicate, h,
    hends.not_startsDigit, hends.not_startsWith_isFraction, hends.not_startsWith_isExponent⟩

/-- An empty diagnostic stream holds no number. -/
theorem not_tooLong_nil (pattern : Pattern) (count : Nat) : ¬ pattern.TooLong [] count := by
  rintro ⟨hpattern, -, digits, hsearch, -⟩
  have hnone : pattern.search? [] = none := by
    rcases hpattern with rfl | rfl <;> decide
  rw [hnone] at hsearch
  cases hsearch

/-- One digit more than a number may have, and there is no report. -/
theorem not_returns_ones : ¬ ∃ report,
    (make {} [("PATH", "/usr/bin:/bin")] (onesScript 4301) "curl http://a").Returns false
      report := by
  rintro ⟨report, -, hanswer⟩
  have hcheck : checkText (Options.limits {}) "curl http://a" = .ok ⟨"curl", ["http://a"]⟩ := by
    decide +kernel
  have hending : Child.ending (Options.limits {}) (onesScript 4301) = .finished 0 := by
    decide +kernel
  have hescapes : Escapes ((onesScript 4301).textOn .out) ((onesScript 4301).textOn .err)
      (.tooManyDigits 4301) := by
    refine .digits ?_ ?_
    · rw [textOn_err_onesScript]
      exact not_tooLong_nil
    · rw [textOn_out_onesScript]
      exact hasFault_ones (by decide)
  have herror : (make {} [("PATH", "/usr/bin:/bin")] (onesScript 4301) "curl http://a").answer
      (Options.keepStream {}) = .error (.tooManyDigits 4301) :=
    answer_make_eq_error_iff.2 ⟨_, 0, hcheck, hending, hescapes⟩
  exact nomatch hanswer.symm.trans herror

end Probe

end CurlWarden
