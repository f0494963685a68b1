import CurlWarden.Proofs.Text.Search
import CurlWarden.Proofs.Text.Trim
import CurlWarden.Tool.Request
import Mathlib.Data.List.Forall2

/-!
# Tools read off signatures

The parameters of a tool are read off the signature and the documentation of the function behind it.
This module says what they are without the reader, for all signatures and all documentation.

* `Says` — what a line of documentation says, said of the text of the line: the name stands in front
  of its first colon, the description behind it, either of them between blanks.
* `Explains` — the description of an argument: the first line about it counts.
* `Reflects` — a parameter describes an argument. This leaves no choice (`reflects_iff`).
* `IsOrdinary` — nothing about the argument gets in the way of the reader. An annotation may be a
  list, say, which cannot be looked up in a table, and a default may answer to everything that it
  equals it.
* `ofFunction_describes_iff` — the parameters describe exactly the arguments that callers give, if
  these are ordinary and only then. Lines about anything else, and the order of lines about
  different arguments, make no difference in any case.
-/

namespace CurlWarden.Tool

variable {name description : String} {line head rest : List Char} {lines : List (List Char)}

/-! ### Lines of documentation -/

/-- The line describes what `name` names: trimmed, the text in front of its first colon is the name,
and the text behind it the description. -/
def Says (line : List Char) (name description : String) : Prop :=
  ∃ head rest, line = head ++ ':' :: rest ∧ ':' ∉ head ∧ Text.trim head = name.toList ∧
    Text.trim rest = description.toList

/-- The line says something of what `name` names. -/
def IsAbout (line : List Char) (name : String) : Prop := ∃ description, Says line name description

/-- The blanks at the ends of a line belong to the blanks around its two parts. -/
theorem describes?_append_cons (h : ':' ∉ head) : describes? name (head ++ ':' :: rest) =
    if Text.trim head = name.toList then some (String.ofList (Text.trim rest)) else none := by
  have hcolon : Text.isBlank ':' = false := by decide
  have hstart : ':' ∉ Text.trimStart head :=
    fun hmem => h ((List.dropWhile_sublist _).subset hmem)
  rw [describes?, Text.trim_append_cons hcolon, Text.splitAtFirst_append hstart]
  simp [← Text.trim_trimStart head, Text.trim_trimEnd]

theorem describes?_eq_some_iff :
    describes? name line = some description ↔ Says line name description := by
  constructor
  · intro h
    have hmem : ':' ∈ line := by
      apply (Text.trim_sublist line).subset
      by_contra hnone
      simp [describes?, hnone] at h
    obtain ⟨head, rest, rfl, hhead⟩ := List.eq_append_cons_of_mem hmem
    rw [describes?_append_cons hhead] at h
    split at h
    · next hname =>
      obtain rfl := Option.some.inj h
      exact ⟨head, rest, rfl, hhead, hname, String.toList_ofList.symm⟩
    · cases h
  · rintro ⟨head, rest, rfl, hhead, hname, hdescription⟩
    rw [describes?_append_cons hhead, if_pos hname, hdescription, String.ofList_toList]

theorem isSome_describes?_iff : (describes? name line).isSome = true ↔ IsAbout line name := by
  rw [Option.isSome_iff_exists]
  exact exists_congr fun _ => describes?_eq_some_iff

theorem describes?_eq_none_iff : describes? name line = none ↔ ¬ IsAbout line name := by
  rw [← isSome_describes?_iff, Option.not_isSome_iff_eq_none]

instance (line : List Char) (name : String) : Decidable (IsAbout line name) :=
  decidable_of_iff _ isSome_describes?_iff

/-! ### Descriptions -/

/-- What the lines come to for the argument `name`. -/
inductive Explains (lines : List (List Char)) (name : String) : String → Prop where
  /-- The first line about it describes it. -/
  | line {before line after description} (hlines : lines = before ++ line :: after)
      (hfirst : ∀ earlier ∈ before, ¬ IsAbout earlier name) (hline : Says line name description) :
      Explains lines name description
  /-- No line is about it. -/
  | none (hlines : ∀ line ∈ lines, ¬ IsAbout line name) :
      Explains lines name ("Parameter " ++ name)

theorem explains_iff : Explains lines name description ↔
    (lines.findSome? (describes? name)).getD ("Parameter " ++ name) = description := by
  constructor
  · rintro (⟨hlines, hfirst, hline⟩ | hlines)
    · rw [List.findSome?_eq_some_iff.2 ⟨_, _, _, hlines, describes?_eq_some_iff.2 hline,
        fun earlier hmem => describes?_eq_none_iff.2 (hfirst earlier hmem)⟩, Option.getD_some]
    · rw [List.findSome?_eq_none_iff.2 fun line hmem => describes?_eq_none_iff.2 (hlines line hmem),
        Option.getD_none]
  · rintro rfl
    cases hfound : lines.findSome? (describes? name) with
    | some description =>
        obtain ⟨before, line, after, hlines, hline, hfirst⟩ := List.findSome?_eq_some_iff.1 hfound
        exact .line hlines (fun earlier hmem => describes?_eq_none_iff.1 (hfirst earlier hmem))
          (describes?_eq_some_iff.1 hline)
    | none =>
        exact .none fun line hmem =>
          describes?_eq_none_iff.1 (List.findSome?_eq_none_iff.1 hfound line hmem)

section
variable {documentation documentation' : Option String} {arguments : List Argument}
  {argument : Argument} {parameter : Parameter}

/-- The lines of documentation. -/
def linesOf (documentation : Option String) : List (List Char) :=
  (documentation.map fun text => text.toList.splitOn '\n').getD []

/-- The lines about the argument `name`. -/
def linesAbout (documentation : Option String) (name : String) : List (List Char) :=
  (linesOf documentation).filter (IsAbout · name)

theorem descriptionOf_eq : descriptionOf (documentation.getD "") name =
    ((linesOf documentation).findSome? (describes? name)).getD ("Parameter " ++ name) := by
  cases documentation <;> rfl

/-- Only the lines about an argument count. -/
theorem descriptionOf_congr (h : linesAbout documentation name = linesAbout documentation' name) :
    descriptionOf (documentation.getD "") name = descriptionOf (documentation'.getD "") name := by
  have hfound (documentation : Option String) :
      (linesAbout documentation name).findSome? (describes? name) =
        (linesOf documentation).findSome? (describes? name) :=
    Text.findSome?_filter fun line _ hline => describes?_eq_none_iff.2 (by simpa using hline)
  rw [descriptionOf_eq, descriptionOf_eq, ← hfound documentation, ← hfound documentation', h]

/-! ### Parameters -/

/-- The annotations that stand for a type, and the names of these types. -/
def annotationTypes : List <| Annotation × String :=
  [(.text, "string"), (.whole, "number"), (.real, "number"), (.truth, "boolean"),
   (.members, "object"), (.items, "array")]

/-- The parameter describes the argument, where these are the lines of documentation. -/
structure Reflects (lines : List (List Char)) (argument : Argument) (parameter : Parameter) :
    Prop where
  name : parameter.name = argument.name
  /-- What is annotated otherwise, or not at all, is a text. -/
  typeName : parameter.typeName = (annotationTypes.lookup argument.annotation).getD "string"
  required : parameter.required = true ↔ argument.default = none
  default : parameter.default = (argument.default.map (·.value)).getD .null
  description : Explains lines argument.name parameter.description

/-- The parameter that describes an argument. -/
def described (documentation : Option String) (argument : Argument) : Parameter where
  name := argument.name
  typeName := (annotationTypes.lookup argument.annotation).getD "string"
  required := argument.default.isNone
  default := (argument.default.map (·.value)).getD .null
  description := descriptionOf (documentation.getD "") argument.name

theorem reflects_iff : Reflects (linesOf documentation) argument parameter ↔
    described documentation argument = parameter := by
  constructor
  · intro h
    have hdescription := explains_iff.1 h.description
    have hrequired : argument.default.isNone = parameter.required := by
      rw [Bool.eq_iff_iff, h.required, Option.isNone_iff_eq_none]
    rw [← descriptionOf_eq] at hdescription
    rw [described, hdescription, hrequired, ← h.name, ← h.typeName, ← h.default]
  · rintro rfl
    exact ⟨rfl, rfl, Option.isNone_iff_eq_none, rfl, explains_iff.2 descriptionOf_eq.symm⟩

/-- Parameters that describe arguments are determined by these. -/
theorem forall₂_reflects_iff {parameters : List Parameter} :
    List.Forall₂ (Reflects (linesOf documentation)) arguments parameters ↔
      arguments.map (described documentation) = parameters := by
  have hreflects : Reflects (linesOf documentation) =
      fun argument parameter => described documentation argument = parameter := by
    funext argument parameter
    exact propext reflects_iff
  rw [hreflects, ← List.forall₂_map_left_iff, List.forall₂_eq_eq_eq]

/-! ### Arguments that get in the way -/

/-- To look at the argument raises an exception: to look up its annotation does, or else to compare
its default with the mark of arguments without one. -/
inductive Argument.Raises (argument : Argument) (complaint : Complaint) : Prop where
  | lookup (h : argument.annotation = .faulty complaint)
  | default {default} (hlookup : ∀ other, argument.annotation ≠ .faulty other)
      (hdefault : argument.default = some default) (h : default.equalsMark = .error complaint)

/-- The argument with the default that is seen: one that passes for the mark is overlooked. -/
def Argument.seen (argument : Argument) : Argument :=
  match argument.default with
  | some ⟨_, .ok true⟩ => { argument with default := none }
  | _ => argument

-- A default that answers to everything that it equals it.
example : (Argument.seen
    { name := "x", default := some ⟨.other "<ANY>" "<ANY>", .ok true⟩ }).default.isNone := rfl

/-- The annotation can be looked up, and the default, if there is one, does not pass for none. -/
structure Argument.IsOrdinary (argument : Argument) : Prop where
  lookup (complaint : Complaint) : argument.annotation ≠ .faulty complaint
  default {default : Default} (h : argument.default = some default) : default.equalsMark = .ok false

theorem typeName_eq {kind : Annotation} (h : ∀ complaint, kind ≠ .faulty complaint) :
    kind.typeName = .ok ((annotationTypes.lookup kind).getD "string") := by
  cases kind with
  | faulty complaint => exact absurd rfl (h complaint)
  | _ => rfl

theorem ofArgument_of_raises {complaint : Complaint} (h : argument.Raises complaint) :
    Parameter.ofArgument (documentation.getD "") argument = .error complaint := by
  cases h with
  | lookup h =>
      rw [Parameter.ofArgument, h]
      rfl
  | default hlookup hdefault h =>
      rw [Parameter.ofArgument, typeName_eq hlookup, Argument.isRequired, hdefault]
      dsimp only
      rw [h]
      rfl

theorem ofArgument_of_not_raises (h : ∀ complaint, ¬ argument.Raises complaint) :
    Parameter.ofArgument (documentation.getD "") argument =
      .ok (described documentation argument.seen) := by
  have hlookup : ∀ complaint, argument.annotation ≠ .faulty complaint :=
    fun complaint heq => h complaint (.lookup heq)
  obtain ⟨name, kind, default⟩ := argument
  rw [Parameter.ofArgument, typeName_eq hlookup]
  match default with
  | none => rfl
  | some ⟨value, .ok true⟩ => rfl
  | some ⟨value, .ok false⟩ => rfl
  | some ⟨value, .error complaint⟩ => exact absurd (.default hlookup rfl rfl) (h complaint)

theorem Argument.isOrdinary_iff : argument.IsOrdinary ↔
    (∀ complaint, ¬ argument.Raises complaint) ∧ argument.seen = argument := by
  constructor
  · intro h
    refine ⟨?_, ?_⟩
    · rintro complaint (heq | ⟨-, hdefault, heq⟩)
      · exact h.lookup complaint heq
      · rw [h.default hdefault] at heq
        cases heq
    · unfold Argument.seen
      split
      · next hdefault => cases h.default hdefault
      · rfl
  · rintro ⟨hraises, hseen⟩
    have hlookup : ∀ complaint, argument.annotation ≠ .faulty complaint :=
      fun complaint heq => hraises complaint (.lookup heq)
    refine ⟨hlookup, ?_⟩
    rintro ⟨value, mark⟩ hdefault
    match mark with
    | .ok false => rfl
    | .ok true =>
      rw [Argument.seen, hdefault] at hseen
      have hnone : none = argument.default := congrArg Argument.default hseen
      rw [hdefault] at hnone
      cases hnone
    | .error complaint => exact absurd (.default hlookup hdefault rfl) (hraises complaint)

/-- A parameter describes an argument with a default that is overlooked, and the argument as it is
seen, only if nothing is overlooked. -/
theorem Argument.seen_eq_of_described_eq
    (h : described documentation argument.seen = described documentation argument) :
    argument.seen = argument := by
  unfold Argument.seen at h ⊢
  split at h
  · next hdefault =>
    have hrequired := congrArg Parameter.required h
    simp [described, hdefault] at hrequired
  · rfl

theorem ofArgument_eq_ok_iff : Parameter.ofArgument (documentation.getD "") argument =
      .ok parameter ↔
    (∀ complaint, ¬ argument.Raises complaint) ∧
      Reflects (linesOf documentation) argument.seen parameter := by
  rw [reflects_iff]
  constructor
  · intro h
    have hraises : ∀ complaint, ¬ argument.Raises complaint := by
      intro complaint hraises
      rw [ofArgument_of_raises hraises] at h
      cases h
    rw [ofArgument_of_not_raises hraises] at h
    exact ⟨hraises, Except.ok.inj h⟩
  · rintro ⟨hraises, rfl⟩
    exact ofArgument_of_not_raises hraises

theorem ofArgument_eq_error_iff {complaint : Complaint} :
    Parameter.ofArgument (documentation.getD "") argument = .error complaint ↔
      argument.Raises complaint := by
  constructor
  · intro h
    by_contra hraises
    by_cases hother : ∃ other, argument.Raises other
    · obtain ⟨other, hother⟩ := hother
      rw [ofArgument_of_raises hother] at h
      exact hraises (Except.error.inj h ▸ hother)
    · rw [ofArgument_of_not_raises (not_exists.1 hother)] at h
      cases h
  · exact ofArgument_of_raises

/-! ### Reading one argument after the other -/

theorem mapM_eq_ok_iff {α β ε : Type} {f : α → Except ε β} {xs : List α} {ys : List β} :
    xs.mapM f = .ok ys ↔ List.Forall₂ (fun x y => f x = .ok y) xs ys := by
  induction xs generalizing ys with
  | nil => simp [pure, Except.pure, eq_comm]
  | cons x xs ih =>
      rw [List.mapM_cons, List.forall₂_cons_left_iff]
      cases hx : f x with
      | error e => simp [bind, Except.bind]
      | ok y =>
          simp only [bind, Except.bind, Except.ok.injEq, exists_and_left, exists_eq_left', ← ih]
          cases xs.mapM f with
          | error e => simp
          | ok rest => simp [pure, Except.pure, eq_comm]

theorem mapM_congr {α β ε : Type} {f g : α → Except ε β} {xs : List α}
    (h : ∀ x ∈ xs, f x = g x) : xs.mapM f = xs.mapM g := by
  induction xs with
  | nil => rfl
  | cons x xs ih =>
      rw [List.mapM_cons, List.mapM_cons, h x (.head _), ih fun y hy => h y (.tail _ hy)]

/-- The first failure is the one that is seen. -/
theorem mapM_eq_error_iff {α β ε : Type} {f : α → Except ε β} {xs : List α} {e : ε} :
    xs.mapM f = .error e ↔ ∃ before x after, xs = before ++ x :: after ∧
      (∀ earlier ∈ before, ∀ e', f earlier ≠ .error e') ∧ f x = .error e := by
  induction xs with
  | nil => simp [pure, Except.pure]
  | cons x xs ih =>
      rw [List.mapM_cons]
      cases hx : f x with
      | error e' =>
          simp only [bind, Except.bind, Except.error.injEq]
          constructor
          · rintro rfl
            exact ⟨[], x, xs, rfl, nofun, hx⟩
          · rintro ⟨_ | ⟨first, before⟩, y, after, heq, hbefore, hy⟩
            · cases heq
              rw [hx] at hy
              exact Except.error.inj hy
            · cases heq
              exact absurd hx (hbefore _ (.head _) e')
      | ok y =>
          have hrest : (do let rest ← xs.mapM f; pure (y :: rest)) = .error e ↔
              xs.mapM f = .error e := by
            cases xs.mapM f <;> simp [bind, Except.bind, pure, Except.pure]
          refine hrest.trans (ih.trans ⟨?_, ?_⟩)
          · rintro ⟨before, z, after, rfl, hbefore, hz⟩
            refine ⟨x :: before, z, after, rfl, ?_, hz⟩
            intro earlier hmem
            rcases List.mem_cons.1 hmem with rfl | hmem
            · simp [hx]
            · exact hbefore earlier hmem
          · rintro ⟨_ | ⟨first, before⟩, z, after, heq, hbefore, hz⟩
            · cases heq
              rw [hx] at hz
              cases hz
            · cases heq
              exact ⟨before, z, after, rfl, fun earlier hmem => hbefore earlier (.tail _ hmem), hz⟩

/-- The arguments that callers give. -/
def given (arguments : List Argument) : List Argument :=
  arguments.filter (·.name ∉ ["self", "cls"])

theorem parametersOf_eq (documentation : String) (arguments : List Argument) :
    parametersOf documentation arguments =
      (given arguments).mapM (Parameter.ofArgument documentation) := by
  have hgiven : arguments.filter (!·.isReceiver) = given arguments := by
    unfold given
    congr 1
    funext argument
    simp [Argument.isReceiver, beq_eq_decide]
  rw [parametersOf, hgiven]

theorem parametersOf_eq_ok_iff {parameters : List Parameter} :
    parametersOf (documentation.getD "") arguments = .ok parameters ↔
      (∀ argument ∈ given arguments, ∀ complaint, ¬ argument.Raises complaint) ∧
        List.Forall₂ (Reflects (linesOf documentation)) ((given arguments).map (·.seen))
          parameters := by
  simp only [parametersOf_eq, mapM_eq_ok_iff, ofArgument_eq_ok_iff]
  rw [List.forall₂_and_left, List.forall₂_map_left_iff]

theorem parametersOf_eq_error_iff {complaint : Complaint} :
    parametersOf (documentation.getD "") arguments = .error complaint ↔
      ∃ before argument after, given arguments = before ++ argument :: after ∧
        (∀ earlier ∈ before, ∀ other, ¬ earlier.Raises other) ∧ argument.Raises complaint := by
  simp only [parametersOf_eq, mapM_eq_error_iff, ne_eq, ofArgument_eq_error_iff]

theorem parametersOf_congr (h : ∀ argument ∈ given arguments,
      linesAbout documentation argument.name = linesAbout documentation' argument.name) :
    parametersOf (documentation.getD "") arguments =
      parametersOf (documentation'.getD "") arguments := by
  rw [parametersOf_eq, parametersOf_eq]
  refine mapM_congr fun argument hargument => ?_
  rw [Parameter.ofArgument, Parameter.ofArgument, descriptionOf_congr (h argument hargument)]

variable (documentation) in
/-- Ordinary arguments, and only these, are described by parameters that are read off. -/
theorem exists_parameters_iff : (∃ parameters,
      parametersOf (documentation.getD "") arguments = .ok parameters ∧
        List.Forall₂ (Reflects (linesOf documentation)) (given arguments) parameters) ↔
    ∀ argument ∈ given arguments, argument.IsOrdinary := by
  simp only [parametersOf_eq_ok_iff, forall₂_reflects_iff, Argument.isOrdinary_iff]
  constructor
  · rintro ⟨parameters, ⟨hraises, hseen⟩, hparameters⟩ argument hargument
    rw [← hparameters, List.map_map, List.map_inj_left] at hseen
    exact ⟨hraises argument hargument, Argument.seen_eq_of_described_eq (hseen argument hargument)⟩
  · intro h
    refine ⟨_, ⟨fun argument hargument => (h argument hargument).1, ?_⟩, rfl⟩
    rw [List.map_map, List.map_inj_left]
    exact fun argument hargument => congrArg _ (h argument hargument).2

section
variable {risk : Risk} {examples : List String}

theorem ofFunction_eq_ok_iff {tool : Tool} :
    ofFunction name description documentation arguments risk examples = .ok tool ↔
      ∃ parameters, parametersOf (documentation.getD "") arguments = .ok parameters ∧
        tool = ⟨name, description, parameters, risk, examples⟩ := by
  unfold ofFunction
  cases parametersOf (documentation.getD "") arguments with
  | error complaint => simp [bind, Except.bind]
  | ok parameters => simp [bind, Except.bind, pure, Except.pure, eq_comm]

theorem ofFunction_eq_error_iff {complaint : Complaint} :
    ofFunction name description documentation arguments risk examples = .error complaint ↔
      parametersOf (documentation.getD "") arguments = .error complaint := by
  unfold ofFunction
  cases parametersOf (documentation.getD "") arguments with
  | error other => simp [bind, Except.bind]
  | ok parameters => simp [bind, Except.bind, pure, Except.pure]

end

end

/-- Whatever the signature and the documentation are: the tool has one parameter for each argument
that callers give, in their order, and each describes its argument, exactly if all of these
arguments are ordinary; no other parameters would do so. Otherwise, the first exception escapes, or
arguments with a default that is overlooked are described as if they had none. In any case,
documentation with the same lines about each of these arguments gives the same, whatever other
lines it has, and however the lines about different arguments are mixed. -/
theorem ofFunction_describes_iff (name description : String) (documentation : Option String)
    (arguments : List Argument) (risk : Risk) (examples : List String) :
    ((∃ parameters, ofFunction name description documentation arguments risk examples =
          .ok ⟨name, description, parameters, risk, examples⟩ ∧
        List.Forall₂ (Reflects (linesOf documentation)) (given arguments) parameters) ↔
      ∀ argument ∈ given arguments, argument.IsOrdinary) ∧
    (∀ parameters parameters',
      List.Forall₂ (Reflects (linesOf documentation)) (given arguments) parameters →
      List.Forall₂ (Reflects (linesOf documentation)) (given arguments) parameters' →
        parameters = parameters') ∧
    (∀ complaint, ofFunction name description documentation arguments risk examples =
        .error complaint ↔
      ∃ before argument after, given arguments = before ++ argument :: after ∧
        (∀ earlier ∈ before, ∀ other, ¬ earlier.Raises other) ∧ argument.Raises complaint) ∧
    (∀ tool, ofFunction name description documentation arguments risk examples = .ok tool ↔
      (∀ argument ∈ given arguments, ∀ complaint, ¬ argument.Raises complaint) ∧
        ∃ parameters, tool = ⟨name, description, parameters, risk, examples⟩ ∧
          List.Forall₂ (Reflects (linesOf documentation)) ((given arguments).map (·.seen))
            parameters) ∧
    ∀ documentation', (∀ argument ∈ given arguments,
        linesAbout documentation argument.name = linesAbout documentation' argument.name) →
      ofFunction name description documentation arguments risk examples =
        ofFunction name description documentation' arguments risk examples := by
  refine ⟨?_, ?_, ?_, ?_, ?_⟩
  · rw [← exists_parameters_iff documentation]
    simp [ofFunction_eq_ok_iff]
  · intro parameters parameters' h h'
    rw [forall₂_reflects_iff] at h h'
    rw [← h, ← h']
  · intro complaint
    rw [ofFunction_eq_error_iff, parametersOf_eq_error_iff]
  · intro tool
    rw [ofFunction_eq_ok_iff]
    constructor
    · rintro ⟨parameters, hparameters, heq⟩
      obtain ⟨hraises, hreflects⟩ := parametersOf_eq_ok_iff.1 hparameters
      exact ⟨hraises, parameters, heq, hreflects⟩
    · rintro ⟨hraises, parameters, heq, hreflects⟩
      exact ⟨parameters, parametersOf_eq_ok_iff.2 ⟨hraises, hreflects⟩, heq⟩
  · intro documentation' hlines
    rw [ofFunction, ofFunction, parametersOf_congr hlines]

/-- Lines about two arguments in another order, among lines about none of them. -/
theorem ofFunction_describes_mixed :
    let arguments : List Argument := [{ name := "self" }, { name := "to", annotation := .text },
      { name := "count", annotation := .whole, default := some { value := .int 1 } }]
    let documentation := some "Sends.\n to : who: first\ncount: how often\nto: later\nself: me"
    let documentation' := some "count: how often\nt: o\n to : who: first\n\nto: later\nReturns: 0"
    (∀ argument ∈ given arguments, argument.IsOrdinary) ∧
    (∀ argument ∈ given arguments,
      linesAbout documentation argument.name = linesAbout documentation' argument.name) ∧
    (∃ parameters, ofFunction "send" "Send" documentation' arguments .low [] =
        .ok ⟨"send", "Send", parameters, .low, []⟩ ∧
      List.Forall₂ (Reflects (linesOf documentation)) (given arguments) parameters) := by
  intro arguments documentation documentation'
  have hgiven : given arguments = [{ name := "to", annotation := .text },
      { name := "count", annotation := .whole, default := some { value := .int 1 } }] := rfl
  have hordinary : ∀ argument ∈ given arguments, argument.IsOrdinary := by
    rw [hgiven]
    simp only [List.forall_mem_cons, List.not_mem_nil, false_imp_iff, implies_true, and_true]
    exact ⟨⟨nofun, nofun⟩, ⟨nofun, by rintro _ ⟨⟩; rfl⟩⟩
  have hlines : ∀ argument ∈ given arguments,
      linesAbout documentation argument.name = linesAbout documentation' argument.name := by
    rw [hgiven]
    decide +kernel
  obtain ⟨hdescribes, -, -, -, hsame⟩ :=
    ofFunction_describes_iff "send" "Send" documentation arguments .low []
  exact ⟨hordinary, hlines, hsame documentation' hlines ▸ hdescribes.2 hordinary⟩

/-- A list as an annotation has no hash, and nothing can be looked up for it. -/
theorem not_described_unhashable :
    ¬ ∀ (name description : String) (documentation : Option String) (arguments : List Argument)
      (risk : Risk) (examples : List String), ∃ parameters,
        ofFunction name description documentation arguments risk examples =
            .ok ⟨name, description, parameters, risk, examples⟩ ∧
          List.Forall₂ (Reflects (linesOf documentation)) (given arguments) parameters := by
  intro h
  obtain ⟨parameters, hoffered, -⟩ :=
    h "t" "d" none [{ name := "x", annotation := .unhashable "list" }] .low []
  have hraised : ofFunction "t" "d" none [{ name := "x", annotation := .unhashable "list" }] .low
      [] = .error ⟨"TypeError", "unhashable type: 'list'"⟩ := rfl
  rw [hraised] at hoffered
  cases hoffered

end CurlWarden.Tool
