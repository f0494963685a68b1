import CurlWarden.Proofs.Policy.Values
import CurlWarden.Proofs.Probe.Safety

/-!
# Values are kept secret

The values of flags, header lines and request data among them, are for the child alone: neither the
log nor the report shows anything of them. Since a value is not a part of the log that one could
point at, this is said of two probes. Take two texts whose words differ only in values, and only in
values that the policy cannot tell apart (`Policy.DifferInValues`). Then nobody who reads the log
and the report can tell which of the two was given.

Two probes are alike (`Alike`) if they are refused for the same reason, or run children that agree
in everything but their arguments, and as many of these. `make_alike` says that the two texts lead
to such probes, and the rest of the module that such probes look the same from outside.
-/

namespace CurlWarden

open Policy (DifferInValues)

/-- The text asks for a command that passes the guard and has these words. -/
structure AsksFor (limits : Limits) (text : String) (words : List String) : Prop where
  guarded : Policy.guardText limits (Command.embedded text) = .ok ()
  words : Command.words? (Text.trim (Command.embedded text).toList) = some words

section
variable {limits : Limits} {text : String} {words : List String}

theorem AsksFor.checkText_eq (h : AsksFor limits text words) :
    checkText limits text = (Policy.checkWords limits words).mapError .violation := by
  rw [checkText, Policy.check, h.guarded, h.words]

theorem AsksFor.checkText_of_ok (h : AsksFor limits text words) {argv : Argv}
    (hcheck : Policy.checkWords limits words = .ok argv) : checkText limits text = .ok argv := by
  rw [h.checkText_eq, hcheck, Except.mapError]

theorem AsksFor.checkText_of_error (h : AsksFor limits text words) {violation : Violation}
    (hcheck : Policy.checkWords limits words = .error violation) :
    checkText limits text = .error (.violation violation) := by
  rw [h.checkText_eq, hcheck, Except.mapError]

end

namespace Child

/-- The runs agree in all that is reported about them. -/
structure Run.Alike (run run' : Run) : Prop where
  limits : run.limits = run'.limits
  conclusion : run.conclusion = run'.conclusion
  program : run.argv.program = run'.argv.program
  arguments : run.argv.arguments.length = run'.argv.arguments.length

variable {run run' : Run}

theorem Run.Alike.opening_eq (h : run.Alike run') : run.opening = run'.opening := by
  rw [opening, opening, h.program, h.arguments]

theorem Run.Alike.closing_eq (h : run.Alike run') (reading : Binary64) :
    run.closing reading = run'.closing reading := by
  rw [closing, closing, h.conclusion, h.program, h.limits]

/-- What becomes of a child depends on its program, but not on its arguments. -/
theorem run_alike (limits : Limits) (env : Environment) (script : Script) {argv argv' : Argv}
    (hprogram : argv.program = argv'.program)
    (harguments : argv.arguments.length = argv'.arguments.length) :
    (Child.run limits env argv script).Alike (Child.run limits env argv' script) where
  limits := rfl
  conclusion := by
    show conclusion limits argv script (ending limits script) =
      conclusion limits argv' script (ending limits script)
    cases ending limits script with
    | refused text => rw [conclusion, conclusion, hprogram]
    | broken text => rfl
    | timedOut => rfl
    | overflowed time => rfl
    | finished time => rfl
  program := hprogram
  arguments := harguments

end Child

namespace Probe

/-- The probes agree in all that is reported about them. -/
inductive Alike : Probe → Probe → Prop where
  | refused (refusal : Refusal) : Alike (.refused refusal) (.refused refusal)
  | ran {run run' : Child.Run} (h : run.Alike run') : Alike (.ran run) (.ran run')

section
variable {probe probe' : Probe}

theorem Alike.result_eq (h : Alike probe probe') (keepStream : Bool) :
    probe.result keepStream = probe'.result keepStream := by
  cases h with
  | refused refusal => rfl
  | ran h => rw [result, result, h.conclusion]

theorem Alike.opening_eq (h : Alike probe probe') : probe.opening = probe'.opening := by
  cases h with
  | refused refusal => rfl
  | ran h => exact h.opening_eq

theorem Alike.closing_eq (h : Alike probe probe') (keepStream : Bool) (reading : Binary64) :
    probe.closing keepStream reading = probe'.closing keepStream reading := by
  rw [closing, closing, h.result_eq]
  congr 1
  cases h with
  | refused refusal => rfl
  | ran h => exact h.closing_eq reading

theorem Alike.records_eq (h : Alike probe probe') (keepStream : Bool) (reading : Binary64) :
    probe.records keepStream reading = probe'.records keepStream reading := by
  rw [records, records, h.opening_eq, h.closing_eq]

end

section
variable {options : Options} {text text' : String} {words words' : List String}

/-- Texts whose words differ in values lead to probes that are alike. -/
theorem make_alike (env : Environment) (script : Child.Script)
    (h : AsksFor options.limits text words) (h' : AsksFor options.limits text' words')
    (hdiffer : DifferInValues options.limits words words') :
    Alike (make options env script text) (make options env script text') := by
  rcases Policy.checkWords_of_differInValues hdiffer with
    ⟨violation, hcheck, hcheck'⟩ | ⟨argv, argv', hcheck, hcheck', hprogram, harguments⟩
  · rw [make_eq_refused (h.checkText_of_error hcheck),
      make_eq_refused (h'.checkText_of_error hcheck')]
    exact .refused _
  · rw [make_eq_ran (h.checkText_of_ok hcheck), make_eq_ran (h'.checkText_of_ok hcheck')]
    exact .ran (Child.run_alike _ _ _ hprogram harguments)

/-- Neither the log, at any level, nor the report or the fault that a probe comes to shows anything
of a value: two texts that differ in values only cannot be told apart by them. -/
theorem make_hides_values (env : Environment) (script : Child.Script)
    (h : AsksFor options.limits text words) (h' : AsksFor options.limits text' words')
    (hdiffer : DifferInValues options.limits words words') :
    (make options env script text).answer options.keepStream =
        (make options env script text').answer options.keepStream ∧
      ∀ reading, (make options env script text).records options.keepStream reading =
        (make options env script text').records options.keepStream reading := by
  have halike := make_alike env script h h' hdiffer
  refine ⟨?_, halike.records_eq _⟩
  rw [answer, answer, halike.result_eq]

/-- A header line and data may be replaced by others, here of other lengths. -/
theorem make_hides_values_token :
    (make {} [] {} "curl -H 'Token: 1' -d key http://a").answer false =
        (make {} [] {} "curl -H 'Token: 234' -d '' http://a").answer false ∧
      (make {} [] {} "curl -H 'Token: 1' -d key http://a").records false .zero =
        (make {} [] {} "curl -H 'Token: 234' -d '' http://a").records false .zero := by
  have hasks : AsksFor {} "curl -H 'Token: 1' -d key http://a"
      ["curl", "-H", "Token: 1", "-d", "key", "http://a"] :=
    ⟨by decide +kernel, by decide +kernel⟩
  have hasks' : AsksFor {} "curl -H 'Token: 234' -d '' http://a"
      ["curl", "-H", "Token: 234", "-d", "", "http://a"] :=
    ⟨by decide +kernel, by decide +kernel⟩
  have hheader : (Policy.Item.valued .header "Token: 1").Fits {} :=
    ⟨rfl, Policy.checkValue_eq_ok_iff.1 (by decide +kernel)⟩
  have hdiffer : DifferInValues {} ["curl", "-H", "Token: 1", "-d", "key", "http://a"]
      ["curl", "-H", "Token: 234", "-d", "", "http://a"] := by
    refine ⟨rfl, ?_⟩
    intro place value value' hvalue hvalue' hne
    match place with
    | 2 =>
        cases hvalue
        cases hvalue'
        exact ⟨.header, ⟨rfl, [], nofun, rfl⟩, ⟨by decide +kernel, by decide +kernel⟩⟩
    | 4 =>
        cases hvalue
        cases hvalue'
        refine ⟨.data, ⟨rfl, [.valued .header "Token: 1"], ?_, rfl⟩, ⟨by decide +kernel, nofun⟩⟩
        exact List.forall_mem_singleton.2 hheader
    | 0 | 1 | 3 | 5 =>
        cases hvalue
        cases hvalue'
        exact absurd rfl hne
    | n + 6 => cases hvalue
  have h := @make_hides_values {} _ _ _ _ [] {} hasks hasks' hdiffer
  exact ⟨h.1, h.2 .zero⟩

end

end Probe

end CurlWarden
