import CurlWarden.Proofs.Diagnostics.Metadata
import CurlWarden.Proofs.Policy.Literal
import CurlWarden.Proofs.Probe.Safety
import CurlWarden.Proofs.Text.Lines

/-!
# The audit trail

The log of a probe is meant to be read line by line, with one record on each line. This module says
which records keep to a line. All those about a child do, whatever it writes: they hold numbers,
quoted names and fixed texts only, provided that the system words the failure of a start in one line
(`isOneLine_records_of_ran`). The records about a refusal do exactly if what the refusal shows of
the command does (`isOneLine_records_refused_iff`).

A refusal shows a word of the command, or the start of one (`Policy.Shows`), and a word may hold
line breaks, since quotes and backslashes get everything into a word. So the log of a refused
command may be broken (`not_oneLine_quoted_flag`); `make_records_isOneLine_iff` says when. It does
not get worse than that: a record that is broken shows no vertical bar, which every record has
between its columns, so that no part of it passes for a record.

By design, one record takes more than a line: below the message that a start has broken down, the
log shows the exception with the calls that were in progress (`make_raised_iff`). Nothing of this
comes from the command.
-/

namespace CurlWarden

open Text (IsOneLine isOneLine_toList_append)

/-! ### What a refusal shows -/

namespace Policy

/-- What a violation may show of the word at fault: nothing, the start of a malformed URL, or a
flag, supported or not. -/
inductive Shows (word : String) : Violation → Prop where
  | nothing (reason : Reason) : Shows word ⟨reason, none⟩
  | url : Shows word (malformedUrl word)
  | unsupported : Shows word ⟨.unsupportedFlag, some word⟩
  | known (reason : Reason) (flag : Flag) (h : word = flag.spelling) :
      Shows word ⟨reason, some word⟩

section
variable {limits : Limits} {urls : Nat} {word : String} {words : List String} {v : Violation}

theorem shows_of_checkUrl (h : checkUrl limits word = .error v) : Shows word v := by
  unfold checkUrl at h
  split at h
  · cases h
    exact .url
  · repeat' split at h
    all_goals cases h
    all_goals first | exact .url | exact .nothing _

theorem shows_of_checkFlag (h : checkFlag word = .error v) : Shows word v := by
  unfold checkFlag at h
  split at h
  · cases h
    exact .unsupported
  · next flag hflag =>
    split at h
    · cases h
      exact .known _ flag (Flag.ofSpelling?_eq_some_iff.1 hflag).symm
    · cases h

theorem detail_of_checkValue {flag : Flag} {value : String}
    (h : checkValue limits flag value = .error v) : v.detail = none := by
  unfold checkValue at h
  split at h
  · cases h
    rfl
  split at h
  · cases h
    rfl
  · cases h

theorem exists_shows_of_subset {words' : List String} (hsub : words ⊆ words')
    (h : ∃ word ∈ words, Shows word v) : ∃ word ∈ words', Shows word v := by
  obtain ⟨word, hmem, hshows⟩ := h
  exact ⟨word, hsub hmem, hshows⟩

/-- The walk shows one of the words. -/
theorem shows_of_countUrls (h : countUrls limits urls words = .error v) :
    v.detail = none ∨ ∃ word ∈ words, Shows word v := by
  fun_induction countUrls limits urls words with
  | case1 => cases h
  | case2 urls word rest _ w hflag =>
      cases h
      exact .inr ⟨word, .head _, shows_of_checkFlag hflag⟩
  | case3 urls word _ flag hflag =>
      cases h
      exact .inr ⟨word, .head _, .known _ flag (checkFlag_eq_ok_iff.1 hflag).1⟩
  | case4 urls word _ flag hflag _ value rest w hvalue =>
      cases h
      exact .inl (detail_of_checkValue hvalue)
  | case5 urls word _ flag hflag _ value rest hvalue ih =>
      have hsub : rest ⊆ word :: value :: rest :=
        List.subset_cons_of_subset _ (List.subset_cons_self _ _)
      exact (ih h).imp_right (exists_shows_of_subset hsub)
  | case6 urls word rest _ flag hflag _ ih =>
      exact (ih h).imp_right (exists_shows_of_subset (List.subset_cons_self _ _))
  | case7 urls word rest _ w hurl =>
      cases h
      exact .inr ⟨word, .head _, shows_of_checkUrl hurl⟩
  | case8 urls word rest _ hurl ih =>
      exact (ih h).imp_right (exists_shows_of_subset (List.subset_cons_self _ _))

theorem shows_of_checkWords (h : checkWords limits words = .error v) :
    v.detail = none ∨ ∃ word ∈ words, Shows word v := by
  unfold checkWords at h
  split at h
  · cases h
    exact .inl rfl
  · next word rest =>
    split at h
    · cases h
      exact .inl rfl
    · split at h
      · next w hcount =>
        cases h
        exact (shows_of_countUrls hcount).imp_right
          (exists_shows_of_subset (List.subset_cons_self _ _))
      · cases h
        exact .inl rfl
      · cases h
      · cases h
        exact .inl rfl

/-- What is shown of a word holds no other characters than the word, and where it breaks a line it
is a malformed URL or a flag that is not supported. -/
theorem Shows.of_detail (h : Shows word v) {detail : String} (hdetail : v.detail = some detail) :
    detail.toList ⊆ word.toList ∧
      (¬ IsOneLine detail.toList → v.reason = .invalidUrl ∨ v.reason = .unsupportedFlag) := by
  cases h with
  | nothing reason => cases hdetail
  | url =>
      cases hdetail
      rw [String.toList_ofList]
      exact ⟨List.take_subset _ _, fun _ => .inl rfl⟩
  | unsupported =>
      cases hdetail
      exact ⟨List.Subset.refl _, fun _ => .inr rfl⟩
  | known reason flag hflag =>
      cases hdetail
      refine ⟨List.Subset.refl _, fun hbroken => absurd ?_ hbroken⟩
      rw [hflag]
      cases flag <;> decide +kernel

/-- A refusal that shows something comes after the guard, and shows a word of the command. -/
theorem shows_of_check {text detail : String} (h : check limits text = .error (.violation v))
    (hdetail : v.detail = some detail) :
    guardText limits text = .ok () ∧ ∃ words word,
      Command.words? (Text.trim text.toList) = some words ∧ word ∈ words ∧ Shows word v := by
  unfold check at h
  split at h
  · next w hguard =>
    cases h
    unfold guardText at hguard
    split at hguard
    · cases hguard
      cases hdetail
    split at hguard
    · cases hguard
      cases hdetail
    · cases hguard
  · next hguard =>
    split at h
    · cases h
    · next words hwords =>
      cases hcheck : checkWords limits words with
      | ok argv =>
          rw [hcheck] at h
          cases h
      | error w =>
          rw [hcheck] at h
          cases h
          rcases shows_of_checkWords hcheck with hnone | ⟨word, hword, hshows⟩
          · rw [hdetail] at hnone
            cases hnone
          · exact ⟨hguard, words, word, hwords, hword, hshows⟩

end

end Policy

/-- The characters of which fixed wordings are made. -/
def isWording (c : Char) : Bool := c.isAlphanum || " _:/()[].".toList.contains c

/-- The text is made of fixed wordings and of characters that are shown. -/
def IsWorded (shown cs : List Char) : Prop := ∀ c ∈ cs, isWording c = true ∨ c ∈ shown

section
variable {shown cs : List Char}

theorem isWorded_of_all (h : cs.all isWording = true) : IsWorded shown cs :=
  fun c hc => .inl (List.all_eq_true.1 h c hc)

theorem isWorded_self : IsWorded shown shown := fun _ hc => .inr hc

theorem isWorded_toList_append {s t : String} : IsWorded shown (s ++ t).toList ↔
    IsWorded shown s.toList ∧ IsWorded shown t.toList := by
  rw [String.toList_append]
  exact List.forall_mem_append

theorem IsWorded.isOneLine (h : IsWorded shown cs) (hshown : IsOneLine shown) : IsOneLine cs := by
  intro c hc
  rcases h c hc with hwording | hmem
  · constructor <;> rintro rfl <;> revert hwording <;> decide
  · exact hshown c hmem

/-- No fixed wording has a vertical bar. -/
theorem IsWorded.bar_mem (h : IsWorded shown cs) (hbar : '|' ∈ cs) : '|' ∈ shown :=
  (h _ hbar).resolve_left (by decide)

end

namespace Refusal

/-- What the refusal shows of the command. -/
def shown : Refusal → List Char
  | .openQuote => []
  | .violation v => (v.detail.getD "").toList

variable {refusal : Refusal}

theorem all_isWording_reason (reason : Reason) :
    reason.label.toList.all isWording = true ∧ reason.wording.toList.all isWording = true := by
  cases reason <;> decide +kernel

theorem isWorded_label (shown : List Char) (refusal : Refusal) :
    IsWorded shown refusal.label.toList := by
  cases refusal with
  | openQuote => exact isWorded_of_all (by decide)
  | violation v =>
      rw [label, isWorded_toList_append]
      exact ⟨isWorded_of_all (by decide), isWorded_of_all (all_isWording_reason v.reason).1⟩

theorem isWorded_message (refusal : Refusal) : IsWorded refusal.shown refusal.message.toList := by
  cases refusal with
  | openQuote => exact isWorded_of_all (by decide)
  | violation v =>
      obtain ⟨reason, detail⟩ := v
      have hwording := (all_isWording_reason reason).2
      cases detail with
      | none =>
          show IsWorded _ (reason.wording ++ ".").toList
          rw [isWorded_toList_append]
          exact ⟨isWorded_of_all hwording, isWorded_of_all (by decide)⟩
      | some detail =>
          show IsWorded _ (reason.wording ++ ": " ++ detail).toList
          rw [isWorded_toList_append, isWorded_toList_append]
          exact ⟨⟨isWorded_of_all hwording, isWorded_of_all (by decide)⟩, isWorded_self⟩

theorem isWorded_record (refusal : Refusal) :
    IsWorded refusal.shown refusal.record.message.toList := by
  cases refusal with
  | openQuote => exact isWorded_of_all (by decide)
  | violation v =>
      obtain ⟨reason, detail⟩ := v
      have hlabel := (all_isWording_reason reason).1
      rw [record, Violation.record, isWorded_toList_append, isWorded_toList_append]
      refine ⟨⟨isWorded_of_all (by decide), isWorded_of_all hlabel⟩, ?_⟩
      cases detail with
      | none => exact isWorded_of_all rfl
      | some detail =>
          dsimp only
          split
          · exact isWorded_of_all rfl
          · rw [isWorded_toList_append, isWorded_toList_append]
            exact ⟨⟨isWorded_of_all (by decide), isWorded_self⟩, isWorded_of_all (by decide)⟩

/-- The record of a refusal holds all that the refusal shows. -/
theorem shown_subset_record (refusal : Refusal) :
    refusal.shown ⊆ refusal.record.message.toList := by
  cases refusal with
  | openQuote => exact List.nil_subset _
  | violation v =>
      obtain ⟨reason, detail⟩ := v
      cases detail with
      | none => exact List.nil_subset _
      | some detail =>
          intro c hc
          have hne : detail ≠ "" := by
            rintro rfl
            cases hc
          simp [record, Violation.record, hne, show c ∈ detail.toList from hc]

/-- What is shown comes after the guard, and from a word of the command. Only malformed URLs and
unsupported flags break a line. -/
theorem exists_word_of_shown {limits : Limits} {text : String}
    (h : Policy.check limits text = .error refusal) (hshown : refusal.shown ≠ []) :
    Policy.guardText limits text = .ok () ∧
      (∃ words, Command.words? (Text.trim text.toList) = some words ∧
        ∃ word ∈ words, refusal.shown ⊆ word.toList) ∧
      (¬ IsOneLine refusal.shown → ∃ v, refusal = .violation v ∧
        (v.reason = .invalidUrl ∨ v.reason = .unsupportedFlag)) := by
  cases refusal with
  | openQuote => exact absurd rfl hshown
  | violation v =>
      cases hdetail : v.detail with
      | none =>
          rw [shown, hdetail] at hshown
          exact absurd rfl hshown
      | some detail =>
          obtain ⟨hguard, words, word, hwords, hword, hshows⟩ := Policy.shows_of_check h hdetail
          obtain ⟨hsub, hreason⟩ := hshows.of_detail hdetail
          rw [shown, hdetail, Option.getD_some]
          exact ⟨hguard, ⟨words, hwords, word, hword, hsub⟩, fun hbroken =>
            ⟨v, rfl, hreason hbroken⟩⟩

end Refusal

/-! ### Records about a child -/

namespace Diagnostics

theorem RuleSet.isOneLine_read_records (set : RuleSet) (hset : IsOneLine set.version.toList)
    (stream : String) : ∀ record ∈ (set.read stream).records, IsOneLine record.message.toList := by
  intro record hrecord
  unfold RuleSet.read at hrecord
  split at hrecord
  · cases hrecord
  · dsimp only at hrecord
    unfold foundRecords at hrecord
    split at hrecord
    · cases hrecord
    · obtain rfl := List.mem_singleton.1 hrecord
      simp [hset, Text.isOneLine_quotedList]

end Diagnostics

theorem Payload.isOneLine_records (body : String) :
    ∀ record ∈ (Payload.ofText body).records, IsOneLine record.message.toList := by
  intro record hrecord
  unfold Payload.ofText at hrecord
  split at hrecord
  · cases hrecord
  · next why _ =>
    have hwhy : IsOneLine why.message.toList := by cases why <;> decide +kernel
    obtain rfl := List.mem_singleton.1 hrecord
    simp [hwhy]
  · cases hrecord
  · cases hrecord

namespace Child

/-- What a run comes to, as far as the system words it, is of one line. -/
def Conclusion.IsOneLine : Conclusion → Prop
  | .failed (.spawn program text) => Text.IsOneLine program.toList ∧ Text.IsOneLine text.toList
  | .broken text => Text.IsOneLine text.toList
  | _ => True

/-- How the system words that a child cannot be started is of one line. -/
def Start.IsOneLine (start : Start) : Prop :=
  ∀ text, start = .refused text ∨ start = .broken text → Text.IsOneLine text.toList

section
variable {limits : Limits} {env : Environment} {argv : Argv} {script : Script} {run : Run}

theorem isOneLine_conclusion (hprogram : IsOneLine argv.program.toList)
    (hstart : script.start.IsOneLine) :
    (Child.run limits env argv script).conclusion.IsOneLine := by
  show (conclusion limits argv script (ending limits script)).IsOneLine
  unfold ending
  split
  · next text heq => exact ⟨hprogram, hstart text (.inl heq)⟩
  · next text heq => exact hstart text (.inr heq)
  · split
    · trivial
    split
    · trivial
    · trivial

theorem Run.isOneLine_opening (hprogram : IsOneLine run.argv.program.toList) :
    ∀ record ∈ run.opening, IsOneLine record.message.toList := by
  intro record hrecord
  obtain rfl := List.mem_singleton.1 hrecord
  have hcount := Text.isOneLine_toString run.argv.arguments.length
  simp only [isOneLine_toList_append]
  exact ⟨⟨⟨⟨by decide, hprogram⟩, by decide⟩, hcount⟩, by decide⟩

theorem Run.isOneLine_closing (hprogram : IsOneLine run.argv.program.toList)
    (hconclusion : run.conclusion.IsOneLine) (reading : Binary64) :
    ∀ record ∈ run.closing reading, IsOneLine record.message.toList := by
  intro record hrecord
  unfold Run.closing at hrecord
  split at hrecord
  · next outcome _ =>
    obtain rfl := List.mem_singleton.1 hrecord
    have hcode := Text.isOneLine_toString_int outcome.exitCode
    have hmillis := Text.isOneLine_toString (millis reading outcome)
    simp only [isOneLine_toList_append]
    exact ⟨⟨⟨⟨by decide, hcode⟩, by decide⟩, hmillis⟩, by decide⟩
  · next program text heq =>
    rw [heq] at hconclusion
    obtain rfl := List.mem_singleton.1 hrecord
    simp only [isOneLine_toList_append]
    exact ⟨⟨⟨by decide, hconclusion.1⟩, by decide⟩, hconclusion.2⟩
  · next limit _ =>
    obtain rfl := List.mem_singleton.1 hrecord
    simp only [isOneLine_toList_append]
    exact ⟨⟨⟨hprogram, by decide⟩, limit.isOneLine_full⟩, by decide⟩
  · obtain rfl := List.mem_singleton.1 hrecord
    have hlimit := Text.isOneLine_toString_int run.limits.maxOutputBytes
    simp only [isOneLine_toList_append]
    exact ⟨⟨⟨hprogram, by decide⟩, hlimit⟩, by decide⟩
  · cases hrecord

/-- A failure is worded in one line, if the system words it so. -/
theorem Failure.isOneLine_message {failure : Failure}
    (h : (Conclusion.failed failure).IsOneLine) : Text.IsOneLine failure.message.toList := by
  cases failure with
  | spawn program text =>
      show Text.IsOneLine ("Failed to start " ++ program ++ ": " ++ text).toList
      simp only [isOneLine_toList_append]
      exact ⟨⟨⟨by decide, h.1⟩, by decide⟩, h.2⟩
  | timeout limit =>
      show Text.IsOneLine ("Command timed out after " ++ limit.brief ++ "s").toList
      simp only [isOneLine_toList_append]
      exact ⟨⟨by decide, limit.isOneLine_brief⟩, by decide⟩
  | outputLimit =>
      show Text.IsOneLine "Output exceeded buffer limit".toList
      decide

theorem Failure.isOneLine_label (failure : Failure) : Text.IsOneLine failure.label.toList := by
  have table : ∀ label ∈ ["spawn", "timeout", "output_limit"], Text.IsOneLine label.toList := by
    decide
  apply table
  cases failure with
  | spawn program text => exact .head _
  | timeout limit => exact .tail _ (.head _)
  | outputLimit => exact .tail _ (.tail _ (.head _))

end

end Child

/-! ### Exceptions in the log -/

theorem Refusal.raised_record (refusal : Refusal) : refusal.record.raised = none := by
  cases refusal <;> rfl

theorem Diagnostics.RuleSet.raised_read_records (set : RuleSet) (stream : String) :
    ∀ record ∈ (set.read stream).records, record.raised = none := by
  intro record hrecord
  unfold RuleSet.read foundRecords at hrecord
  repeat' split at hrecord
  all_goals simp_all

theorem Payload.raised_records (body : String) :
    ∀ record ∈ (Payload.ofText body).records, record.raised = none := by
  intro record hrecord
  unfold Payload.ofText at hrecord
  split at hrecord
  all_goals simp_all

theorem Child.Run.raised_closing (run : Child.Run) (reading : Binary64) :
    ∀ record ∈ run.closing reading, record.raised = none := by
  intro record hrecord
  unfold Child.Run.closing at hrecord
  split at hrecord
  all_goals simp_all

theorem Child.conclusion_eq_broken_iff {limits : Limits} {env : Environment} {argv : Argv}
    {script : Script} {raised : String} :
    (Child.run limits env argv script).conclusion = .broken raised ↔
      script.start = .broken raised := by
  show conclusion limits argv script (ending limits script) = _ ↔ _
  cases hstart : script.start with
  | refused text => simp [ending, hstart, conclusion]
  | broken text => simp [ending, hstart, conclusion]
  | started =>
      simp only [ending, hstart]
      repeat' split
      all_goals simp [conclusion]

namespace Probe

theorem raised_finished (keepStream : Bool) (outcome : Child.Outcome) :
    ∀ record ∈ (finished keepStream outcome).2, record.raised = none := by
  have hread := Diagnostics.RuleSet.standard.raised_read_records outcome.err
  have hbody := Payload.raised_records outcome.out
  unfold finished
  dsimp only
  split
  · exact hread
  · intro record hrecord
    rcases List.mem_append.1 hrecord with hrecord | hrecord
    · rcases List.mem_append.1 hrecord with hrecord | hrecord
      · exact hread record hrecord
      · split at hrecord <;> simp_all
    · exact hbody record hrecord

/-- The one record that shows an exception is about a start that broke down. -/
theorem conclusion_of_raised {probe : Probe} {keepStream : Bool} {reading : Binary64}
    {record : Log.Record} (hrecord : record ∈ probe.records keepStream reading) {raised : String}
    (hraised : record.raised = some raised) :
    ∃ run, probe = .ran run ∧ run.conclusion = .broken raised := by
  cases probe with
  | refused refusal =>
      have hnone : record.raised = none := by
        rcases List.mem_cons.1 hrecord with rfl | hrecord
        · exact refusal.raised_record
        · rw [List.mem_singleton.1 hrecord]
      rw [hnone] at hraised
      cases hraised
  | ran run =>
      refine ⟨run, rfl, ?_⟩
      have hrest : record.raised ≠ none := by simp [hraised]
      rcases List.mem_append.1 hrecord with hrecord | hrecord
      · rw [List.mem_singleton.1 hrecord] at hrest
        exact absurd rfl hrest
      rcases List.mem_append.1 hrecord with hrecord | hrecord
      · exact absurd (run.raised_closing reading record hrecord) hrest
      · simp only [result] at hrecord
        split at hrecord
        · rw [List.mem_singleton.1 hrecord] at hrest
          exact absurd rfl hrest
        · next text hconclusion =>
          rw [List.mem_singleton.1 hrecord] at hraised
          rw [hconclusion, Option.some.inj hraised]
        · exact absurd (raised_finished keepStream _ record hrecord) hrest

/-- An exception is shown exactly if the command is let through and the start of its child breaks
down, and then it is this one. -/
theorem make_raised_iff {options : Options} {env : Environment} {script : Child.Script}
    {text raised : String} {keepStream : Bool} {reading : Binary64} :
    (∃ record ∈ (make options env script text).records keepStream reading,
        record.raised = some raised) ↔
      (∃ argv, checkText options.limits text = .ok argv) ∧ script.start = .broken raised := by
  cases hcheck : checkText options.limits text with
  | error refusal =>
      rw [make_eq_refused hcheck]
      simp only [reduceCtorEq, exists_false, false_and, iff_false]
      rintro ⟨record, hrecord, hraised⟩
      obtain ⟨run, hrun, -⟩ := conclusion_of_raised hrecord hraised
      cases hrun
  | ok argv =>
      rw [make_eq_ran hcheck, ← Child.conclusion_eq_broken_iff]
      constructor
      · rintro ⟨record, hrecord, hraised⟩
        obtain ⟨run, hrun, hconclusion⟩ := conclusion_of_raised hrecord hraised
        cases hrun
        exact ⟨⟨argv, rfl⟩, hconclusion⟩
      · rintro ⟨-, hconclusion⟩
        refine ⟨⟨.error, .pipeline, "Probe failed unexpectedly: " ++ raised, some raised⟩, ?_, rfl⟩
        refine List.mem_append_right _ (List.mem_append_right _ ?_)
        simp only [result, hconclusion, List.mem_singleton]

end Probe

/-! ### The records of a probe -/

namespace Probe

variable {keepStream : Bool} {reading : Binary64}

theorem isOneLine_statusText {stream : String} {m : Diagnostics.Metadata}
    (h : (Diagnostics.RuleSet.standard.read stream).metadata = .ok m) :
    IsOneLine (statusText m).toList := by
  unfold statusText
  cases hstatus : m.get? .statusCode with
  | none => decide
  | some datum =>
      obtain ⟨n, rfl⟩ := Diagnostics.RuleSet.exists_number_of_standard_read h hstatus
      exact Text.isOneLine_toString_int n

theorem isOneLine_failed {label message : String} (hlabel : IsOneLine label.toList)
    (hmessage : IsOneLine message.toList) :
    ∀ record ∈ (failed label message).2, IsOneLine record.message.toList := by
  intro record hrecord
  obtain rfl := List.mem_singleton.1 hrecord
  simp only [isOneLine_toList_append]
  exact ⟨⟨⟨by decide, hlabel⟩, by decide⟩, hmessage⟩

/-- A child that finishes is reported on in records of one line each, whatever it wrote. -/
theorem isOneLine_finished (outcome : Child.Outcome) :
    ∀ record ∈ (finished keepStream outcome).2, IsOneLine record.message.toList := by
  have hread := Diagnostics.RuleSet.standard.isOneLine_read_records (by decide) outcome.err
  unfold finished
  dsimp only
  split
  · exact hread
  · next metadata hmetadata =>
    have hcode := Text.isOneLine_toString_int outcome.exitCode
    have hstatus := isOneLine_statusText hmetadata
    intro record hrecord
    rcases List.mem_append.1 hrecord with hrecord | hrecord
    · rcases List.mem_append.1 hrecord with hrecord | hrecord
      · exact hread record hrecord
      · split at hrecord
        · cases hrecord
        · obtain rfl := List.mem_singleton.1 hrecord
          simp only [isOneLine_toList_append]
          exact ⟨⟨⟨by decide, hcode⟩, by decide⟩, hstatus⟩
    · exact Payload.isOneLine_records outcome.out record hrecord

/-- All records about a child are of one line. -/
theorem isOneLine_records_of_ran {run : Child.Run} (hprogram : IsOneLine run.argv.program.toList)
    (hconclusion : run.conclusion.IsOneLine) :
    ∀ record ∈ (Probe.ran run).records keepStream reading, IsOneLine record.message.toList := by
  intro record hrecord
  rcases List.mem_append.1 hrecord with hrecord | hrecord
  · exact run.isOneLine_opening hprogram record hrecord
  rcases List.mem_append.1 hrecord with hrecord | hrecord
  · exact run.isOneLine_closing hprogram hconclusion reading record hrecord
  · unfold result at hrecord
    dsimp only at hrecord
    split at hrecord
    · next failure heq =>
      rw [heq] at hconclusion
      refine isOneLine_failed ?_ (Child.Failure.isOneLine_message hconclusion) record hrecord
      rw [isOneLine_toList_append]
      exact ⟨by decide, failure.isOneLine_label⟩
    · next text heq =>
      rw [heq] at hconclusion
      obtain rfl := List.mem_singleton.1 hrecord
      rw [isOneLine_toList_append]
      exact ⟨by decide, hconclusion⟩
    · exact isOneLine_finished _ record hrecord

/-- The two records about a refusal are made of fixed wordings and of what the refusal shows. -/
theorem isWorded_records_refused {refusal : Refusal} :
    ∀ record ∈ (Probe.refused refusal).records keepStream reading,
      IsWorded refusal.shown record.message.toList := by
  intro record hrecord
  rcases List.mem_cons.1 hrecord with rfl | hrecord
  · exact refusal.isWorded_record
  · obtain rfl := List.mem_singleton.1 hrecord
    simp only [isWorded_toList_append]
    exact ⟨⟨⟨isWorded_of_all (by decide), refusal.isWorded_label _⟩, isWorded_of_all (by decide)⟩,
      refusal.isWorded_message⟩

theorem isOneLine_records_refused_iff {refusal : Refusal} :
    (∀ record ∈ (Probe.refused refusal).records keepStream reading,
      IsOneLine record.message.toList) ↔ IsOneLine refusal.shown := by
  constructor
  · intro h
    exact (h refusal.record (.head _)).subset refusal.shown_subset_record
  · exact fun h record hrecord => (isWorded_records_refused record hrecord).isOneLine h

section
variable {options : Options} {env : Environment} {script : Child.Script} {text : String}

theorem isOneLine_records_make_of_ok {argv : Argv}
    (hcheck : checkText options.limits text = .ok argv) (hstart : script.start.IsOneLine) :
    ∀ record ∈ (make options env script text).records keepStream reading,
      IsOneLine record.message.toList := by
  have hprogram : IsOneLine argv.program.toList := by
    rw [(Policy.check_isSafe hcheck).program]
    decide
  rw [make_eq_ran hcheck]
  exact isOneLine_records_of_ran hprogram (Child.isOneLine_conclusion hprogram hstart)

/-- Records that are broken are about a refusal that shows a line break. -/
theorem exists_refusal_of_broken_record (hstart : script.start.IsOneLine) {record : Log.Record}
    (hrecord : record ∈ (make options env script text).records keepStream reading)
    (hbroken : ¬ IsOneLine record.message.toList) :
    ∃ refusal, checkText options.limits text = .error refusal ∧ refusal.shown ≠ [] ∧
      IsWorded refusal.shown record.message.toList := by
  cases hcheck : checkText options.limits text with
  | ok argv => exact absurd (isOneLine_records_make_of_ok hcheck hstart record hrecord) hbroken
  | error refusal =>
      rw [make_eq_refused hcheck] at hrecord
      have hworded := isWorded_records_refused record hrecord
      refine ⟨refusal, rfl, fun hnil => hbroken (hworded.isOneLine ?_), hworded⟩
      rw [hnil]
      exact Text.isOneLine_nil

theorem isOneLine_records_make_iff (hstart : script.start.IsOneLine) :
    (∀ record ∈ (make options env script text).records keepStream reading,
      IsOneLine record.message.toList) ↔
      ∀ refusal, checkText options.limits text = .error refusal → IsOneLine refusal.shown := by
  constructor
  · intro h refusal hcheck
    rw [make_eq_refused hcheck] at h
    exact isOneLine_records_refused_iff.1 h
  · intro h
    cases hcheck : checkText options.limits text with
    | ok argv => exact isOneLine_records_make_of_ok hcheck hstart
    | error refusal =>
        rw [make_eq_refused hcheck]
        exact isOneLine_records_refused_iff.2 (h refusal hcheck)

/-- A start that breaks down is the only other reason for a record of several lines. -/
theorem isOneLine_texts_make_iff (hstart : script.start.IsOneLine) {time : String}
    (htime : IsOneLine time.toList) (trace : Log.Trace) :
    (∀ record ∈ (make options env script text).records keepStream reading,
      IsOneLine (record.text time trace).toList) ↔
      (∀ refusal, checkText options.limits text = .error refusal → IsOneLine refusal.shown) ∧
        ∀ argv raised, checkText options.limits text = .ok argv → script.start ≠ .broken raised := by
  simp only [Log.Record.isOneLine_text_iff htime]
  constructor
  · intro h
    refine ⟨(isOneLine_records_make_iff hstart).1 fun record hrecord => (h record hrecord).1,
      fun argv raised hcheck hbroken => ?_⟩
    obtain ⟨record, hrecord, hraised⟩ := make_raised_iff.2 ⟨⟨argv, hcheck⟩, hbroken⟩
    rw [(h record hrecord).2] at hraised
    cases hraised
  · rintro ⟨hshown, hbroken⟩ record hrecord
    refine ⟨(isOneLine_records_make_iff hstart).2 hshown record hrecord,
      Option.eq_none_iff_forall_not_mem.2 fun raised hraised => ?_⟩
    obtain ⟨⟨argv, hcheck⟩, hstart⟩ := make_raised_iff.1 ⟨record, hrecord, hraised⟩
    exact hbroken argv raised hcheck hstart

/-- Without quotes, a word has no blanks, and line breaks are blanks. -/
theorem not_isUnquoted_of_shown {limits : Limits} {refusal : Refusal}
    (hcheck : checkText limits text = .error refusal) (hbroken : ¬ IsOneLine refusal.shown) :
    ¬ Command.IsUnquoted (Command.embedded text).toList := by
  have hshown : refusal.shown ≠ [] := fun hnil => hbroken (hnil ▸ Text.isOneLine_nil)
  obtain ⟨-, ⟨words, hwords, word, hword, hsub⟩, -⟩ := Refusal.exists_word_of_shown hcheck hshown
  refine fun hunquoted => hbroken fun c hc => ?_
  have htrim := Text.trim_sublist (Command.embedded text).toList
  have hdark := Command.isBlank_of_mem_word (fun d hd => hunquoted d (htrim.subset hd)) hwords
    hword (hsub hc)
  constructor <;> rintro rfl <;> revert hdark <;> decide

/-- The guard lets no vertical bar through, and a record has some between its columns. -/
theorem not_line_infix_message (hstart : script.start.IsOneLine) {record : Log.Record}
    (hrecord : record ∈ (make options env script text).records keepStream reading)
    (hbroken : ¬ IsOneLine record.message.toList) (time : String) (other : Log.Record) :
    ¬ (other.line time).toList <:+: record.message.toList := by
  intro hpart
  obtain ⟨refusal, hcheck, hshown, hworded⟩ :=
    exists_refusal_of_broken_record hstart hrecord hbroken
  obtain ⟨hguard, ⟨words, hwords, word, hword, hsub⟩, -⟩ :=
    Refusal.exists_word_of_shown hcheck hshown
  have hbar : '|' ∈ (other.line time).toList := by simp [Log.Record.line]
  have hmem : '|' ∈ (Command.embedded text).toList := by
    apply (Text.trim_sublist _).subset
    apply (Policy.words?_sublist hwords).subset
    exact List.mem_flatMap.2 ⟨word, hword, hsub (hworded.bar_mem (hpart.subset hbar))⟩
  exact (Policy.guardText_eq_ok_iff.1 hguard).1 _ hmem (by decide)

end

/-- The messages of a probe are of one line each exactly if its refusal, should there be one, shows
no line break of the command. The records that are written are of one line each exactly if, besides,
the start of the child does not break down. Only malformed URLs and unsupported flags can show a
line break, and only of a command with quotes or backslashes; and no part of a message that is
broken reads as another record. -/
theorem make_records_isOneLine_iff (options : Options) (env : Environment) (script : Child.Script)
    (text : String) (keepStream : Bool) (reading : Binary64) (hstart : script.start.IsOneLine) :
    ((∀ record ∈ (make options env script text).records keepStream reading,
        IsOneLine record.message.toList) ↔
      ∀ refusal, checkText options.limits text = .error refusal → IsOneLine refusal.shown) ∧
    (∀ (time : String) (trace : Log.Trace), IsOneLine time.toList →
      ((∀ record ∈ (make options env script text).records keepStream reading,
          IsOneLine (record.text time trace).toList) ↔
        (∀ refusal, checkText options.limits text = .error refusal → IsOneLine refusal.shown) ∧
          ∀ argv raised, checkText options.limits text = .ok argv →
            script.start ≠ .broken raised)) ∧
    (∀ (time : String) (trace : Log.Trace), IsOneLine time.toList →
      ∀ record ∈ (make options env script text).records keepStream reading,
        (IsOneLine (record.text time trace).toList ↔
          IsOneLine record.message.toList ∧ record.raised = none)) ∧
    (∀ refusal, checkText options.limits text = .error refusal → ¬ IsOneLine refusal.shown →
      (∃ v, refusal = .violation v ∧ (v.reason = .invalidUrl ∨ v.reason = .unsupportedFlag)) ∧
      ¬ Command.IsUnquoted (Command.embedded text).toList) ∧
    ∀ record ∈ (make options env script text).records keepStream reading,
      ¬ IsOneLine record.message.toList →
      ∀ (time : String) (other : Log.Record),
        ¬ (other.line time).toList <:+: record.message.toList := by
  refine ⟨isOneLine_records_make_iff hstart,
    fun time trace htime => isOneLine_texts_make_iff hstart htime trace,
    fun time trace htime record _ => record.isOneLine_text_iff htime trace, ?_, ?_⟩
  · intro refusal hcheck hbroken
    have hshown : refusal.shown ≠ [] := fun hnil => hbroken (hnil ▸ Text.isOneLine_nil)
    obtain ⟨-, -, hreason⟩ := Refusal.exists_word_of_shown hcheck hshown
    exact ⟨hreason hbroken, not_isUnquoted_of_shown hcheck hbroken⟩
  · intro record hrecord hbroken time other
    exact not_line_infix_message hstart hrecord hbroken time other

/-- A start that fails is recorded in one line each. A flag with a line break is not, and neither is
a start that breaks down. -/
theorem make_records_isOneLine_failed_start :
    (Child.Start.refused "no such file").IsOneLine ∧
      (Child.Start.broken "embedded null byte").IsOneLine ∧
      (∀ record ∈ (make {} [] { start := .refused "no such file" } "curl http://a").records false
        .zero, IsOneLine (record.text "12:00" ⟨[], "ValueError"⟩).toList) ∧
      (¬ ∀ record ∈ (make {} [] { start := .refused "no such file" } "curl '-a\nb'").records false
        .zero, IsOneLine record.message.toList) ∧
      ¬ ∀ record ∈ (make {} [] { start := .broken "embedded null byte" } "curl http://a").records
        false .zero, IsOneLine (record.text "12:00" ⟨[], "ValueError"⟩).toList := by
  have hrefused : (Child.Start.refused "no such file").IsOneLine := by
    rintro text (h | h) <;> cases h
    decide
  have hbreaks : (Child.Start.broken "embedded null byte").IsOneLine := by
    rintro text (h | h) <;> cases h
    decide
  have hplain : checkText ({} : Options).limits "curl http://a" = .ok ⟨"curl", ["http://a"]⟩ := by
    decide +kernel
  have hflag : checkText ({} : Options).limits "curl '-a\nb'" =
      .error (.violation ⟨.unsupportedFlag, some "-a\nb"⟩) := by decide +kernel
  have htime : IsOneLine "12:00".toList := by decide
  have hcase := fun text => make_records_isOneLine_iff {} [] { start := .refused "no such file" }
    text false .zero hrefused
  have hbroken := make_records_isOneLine_iff {} [] { start := .broken "embedded null byte" }
    "curl http://a" false .zero hbreaks
  refine ⟨hrefused, hbreaks, ((hcase _).2.1 _ _ htime).2 ⟨fun refusal hcheck => ?_,
    fun argv raised _ heq => ?_⟩, fun h => ?_, fun h => ?_⟩
  · rw [hplain] at hcheck
    cases hcheck
  · cases heq
  · have hshown := (hcase _).1.1 h _ hflag
    exact absurd (hshown '\n' (by decide)).2 (by decide)
  · exact ((hbroken.2.1 _ _ htime).1 h).2 _ _ hplain rfl

/-- A flag with a quoted line break is refused, and the log shows it as it is. -/
theorem not_oneLine_quoted_flag :
    ¬ ∀ (options : Options) (env : Environment) (script : Child.Script) (text : String)
      (keepStream : Bool) (reading : Binary64), script.start.IsOneLine →
      ∀ record ∈ (make options env script text).records keepStream reading,
        IsOneLine record.message.toList := by
  intro h
  have hcheck : checkText ({} : Options).limits "curl '-a\nb'" =
      .error (.violation ⟨.unsupportedFlag, some "-a\nb"⟩) := by decide +kernel
  have hrefused : make {} [] {} "curl '-a\nb'" =
      .refused (.violation ⟨.unsupportedFlag, some "-a\nb"⟩) := make_eq_refused hcheck
  have hlines := h {} [] {} "curl '-a\nb'" false .zero (by rintro text (h | h) <;> cases h)
  rw [hrefused] at hlines
  have hshown := isOneLine_records_refused_iff.1 hlines
  exact (hshown '\n' (by decide)).2 rfl

end Probe

end CurlWarden
