import CurlWarden.Probe
import CurlWarden.Proofs.Policy.Check

/-!
# Nothing unsafe is run

A probe runs one child at most, since it is either refused or holds one run. The main statement is
`make_runs_safely`: whatever the text, the options, the environment and the child, the argument
vector of that run is safe in the sense of `Argv.IsSafe`, and the child sees a search path and no
other variable; and a text that is refused leads to a report of the refusal and nothing else.
-/

namespace CurlWarden

namespace Report

open Diagnostics (Field)

/-- The report has an empty body and an error, and every other field of it is absent. -/
structure IsFailure (message : String) (report : Report) : Prop where
  data : report.data = .text ""
  rawStream : report.rawStream = none
  error : report.metadata.get? .error = some (.text message)
  rest : ∀ field : Field, field ≠ .error → report.metadata.get? field = none

theorem failure_isFailure (message : String) : (failure message).IsFailure message where
  data := rfl
  rawStream := rfl
  error := by simp [failure]
  rest field hfield := by simp [failure, hfield]

end Report

namespace Probe

variable {options : Options} {env : Environment} {script : Child.Script} {text : String}

/-- A text that is refused runs nothing. -/
theorem make_eq_refused {refusal : Refusal} (h : checkText options.limits text = .error refusal) :
    make options env script text = .refused refusal := by
  rw [make, h]

theorem make_eq_ran {argv : Argv} (h : checkText options.limits text = .ok argv) :
    make options env script text = .ran (Child.run options.limits env argv script) := by
  rw [make, h]

/-- A run belongs to an argument vector that the text was allowed to have. -/
theorem exists_of_run?_make {run : Child.Run} (h : (make options env script text).run? = some run) :
    ∃ argv, checkText options.limits text = .ok argv ∧
      run = Child.run options.limits env argv script := by
  cases hcheck : checkText options.limits text with
  | error refusal =>
      rw [make_eq_refused hcheck] at h
      cases h
  | ok argv =>
      rw [make_eq_ran hcheck] at h
      exact ⟨argv, rfl, (Option.some.inj h).symm⟩

/-- Whatever is run is safe, and what is refused is only reported. -/
theorem make_runs_safely (options : Options) (env : Environment) (script : Child.Script)
    (text : String) :
    (∀ run, (make options env script text).run? = some run →
      checkText options.limits text = .ok run.argv ∧
      run.argv.IsSafe options.limits (Command.embedded text) ∧
      run.environment = [("PATH", env.path)]) ∧
    (∀ refusal, checkText options.limits text = .error refusal →
      (make options env script text).run? = none ∧
      ∃ report, (make options env script text).answer options.keepStream = .ok report ∧
        report.IsFailure refusal.message) := by
  refine ⟨fun run h => ?_, fun refusal h => ?_⟩
  · obtain ⟨argv, hcheck, rfl⟩ := exists_of_run?_make h
    exact ⟨hcheck, Policy.check_isSafe hcheck, rfl⟩
  · rw [make_eq_refused h]
    exact ⟨rfl, .failure refusal.message, rfl, Report.failure_isFailure _⟩

end Probe

end CurlWarden
