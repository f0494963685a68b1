import CurlWarden.Proofs.Terminal.Output

/-!
# Checking is a dry run of probing

`check` tells what `probe` would do on the same text, under the same settings. The two take
different ways: `check` asks the policy and prints what it says, while `probe` hands the text to the
request tool, which returns an envelope. `Agree` compares what they leave behind:

* `check` prints an argument vector exactly if `probe` attempts to start a child, and the child then
  has these arguments;
* `check` prints why a text is refused exactly if `probe` starts nothing and prints an envelope with
  an empty body and the same message.

Both are statements on printed text, so the directions back from it rest on printing being
injective: on `Value.print_injective` for JSON, and on `rejection_injective` for the line of a
refusal.

Where a child is started, the status of `probe` and the success in the envelope come from the report
alike (`Reflects`), unless an exception escapes. One that escapes from the tool ends `probe`, and so
does one more: a body may decode to a text with half of a surrogate pair, and this cannot be printed.
`Ends` says which of these it is.
-/

namespace CurlWarden.Terminal

open Json (CodePoints Value)

/-- What `check` prints for an argument vector with these words. -/
def acceptance (words : List String) : String :=
  printed [String.ofList ((Value.texts words).print .compact)]

/-- What `check` prints for a refusal. -/
def rejection (kind message : String) : String :=
  printed ["Rejected (" ++ kind ++ "): " ++ message]

/-- What `probe` prints with the given success and response. -/
def envelope (success : Bool) (response : Value) : String :=
  printed [String.ofList (Value.print .indented
    (.object [("success", .bool success), ("apiResponse", response)]))]

/-- The response to a text that is refused. -/
def refusalResponse (message : String) : Value :=
  .object [("data", .text ""), ("error", .text message)]

/-- The effects are those of `check` and `probe` on one text. -/
structure Agree (checked probed : Effect) : Prop where
  dry : checked.child = none
  accepted (words : List String) :
    checked.status = .ok 0 ∧ checked.output = acceptance words ↔
      ∃ run, probed.child = some run ∧ run.argv.toList = words
  refused (message : String) :
    (∃ kind ∈ ["lex", "policy"], checked.status = .ok 2 ∧
        checked.output = rejection kind message) ↔
      probed.child = none ∧ probed.status = .ok 2 ∧
        probed.output = envelope false (refusalResponse message)

/-- The effect shows the report, with a success that says whether there is no error or a status
code, and with a status that says the same. -/
def Reflects (report : Report) (effect : Effect) : Prop :=
  ∃ success : Bool, effect.output = envelope success report.toJson ∧
    (success = true ↔ report.error? = none ∨
      ∃ code, report.metadata.get? .statusCode = some code) ∧
    (effect.status = .ok 0 ↔ success = true) ∧ (effect.status = .ok 2 ↔ success = false)

/-- The effect is that of `probe` where the call of the tool comes to `answer`. -/
structure Ends (answer : Except Fault Report) (effect : Effect) : Prop where
  returned (code : Nat) (h : effect.status = .ok code) :
    ∃ report, answer = .ok report ∧ Reflects report effect
  reflects (report : Report) (h : answer = .ok report) (hwhole : report.data.isWhole) :
    Reflects report effect
  escaped (fault : Fault) : effect.status = .error fault ↔ answer = .error fault ∨
    fault = .unprintable ∧ ∃ report, answer = .ok report ∧ report.data.isWhole = false
  silent (fault : Fault) (h : effect.status = .error fault) : effect.output = ""

/-- The effects are the same, but for what is logged. -/
structure SameBesidesLog (effect effect' : Effect) : Prop where
  output : effect.output = effect'.output
  status : effect.status = effect'.status
  child : effect.child = effect'.child

/-! ### What is printed determines what was meant -/

section
variable {host : Host} {settings : Settings} {text : String}

end

/-! ### Command lines -/

/-- Under settings that load, an order is carried out, and some of its records are left out. -/
theorem exists_run {host : Host} {settings : Settings} {arguments : List String} {order : Order}
    (hsettings : settingsOf host = .ok settings)
    (horder : Order.ofArguments host.input arguments = order) :
    ∃ effect, run host arguments = .ok (settings.logPath, effect) ∧
      SameBesidesLog effect (perform host settings order) := by
  subst horder
  rw [run, hsettings]
  exact ⟨_, rfl, rfl, rfl, rfl⟩

section
variable {checked checked' probed probed' : Effect}

theorem Agree.congr (h : Agree checked' probed') (hchecked : SameBesidesLog checked checked')
    (hprobed : SameBesidesLog probed probed') : Agree checked probed where
  dry := hchecked.child.trans h.dry
  accepted words := by
    rw [hchecked.status, hchecked.output, hprobed.child]
    exact h.accepted words
  refused message := by
    rw [hchecked.status, hchecked.output, hprobed.child, hprobed.status, hprobed.output]
    exact h.refused message

theorem Reflects.congr {report : Report} (h : Reflects report probed')
    (hprobed : SameBesidesLog probed probed') : Reflects report probed := by
  obtain ⟨success, houtput, hstatus⟩ := h
  refine ⟨success, hprobed.output.trans houtput, ?_⟩
  rw [hprobed.status]
  exact hstatus

theorem Ends.congr {answer : Except Fault Report} (h : Ends answer probed')
    (hprobed : SameBesidesLog probed probed') : Ends answer probed where
  returned code hcode := by
    obtain ⟨report, hanswer, hreflects⟩ := h.returned code (hprobed.status ▸ hcode)
    exact ⟨report, hanswer, hreflects.congr hprobed⟩
  reflects report hanswer hwhole := (h.reflects report hanswer hwhole).congr hprobed
  escaped fault := hprobed.status ▸ h.escaped fault
  silent fault hfault := hprobed.output.trans (h.silent fault (hprobed.status ▸ hfault))

end

end CurlWarden.Terminal
