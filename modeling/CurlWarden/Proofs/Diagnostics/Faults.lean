import CurlWarden.Diagnostics.RuleSet

/-!
# Diagnostic streams that cannot be read

Reading a diagnostic stream fails in two ways only: a pattern captures more digits than a number may
have, or a rule supplies a field that does not exist. Rules are tried in order and the first that
fails decides, so the failure of a list of rules is described rule by rule
(`findings_cons_eq_error_iff`).

The standard rules supply existing fields, so for them only the digits count
(`RuleSet.standard_read_eq_error_iff`).
-/

namespace CurlWarden.Diagnostics

/-- The leftmost match of the pattern captures `count` digits, and these are too many. -/
def Pattern.TooLong (pattern : Pattern) (stream : List Char) (count : Nat) : Prop :=
  (pattern = .status ∨ pattern = .length) ∧ Json.maxDigits < count ∧
    ∃ digits, pattern.search? stream = some digits ∧ digits.length = count

theorem Pattern.TooLong.eq {pattern : Pattern} {stream : List Char} {count count' : Nat}
    (h : pattern.TooLong stream count) (h' : pattern.TooLong stream count') : count = count' := by
  obtain ⟨-, -, digits, hsearch, rfl⟩ := h
  obtain ⟨-, -, digits', hsearch', rfl⟩ := h'
  rw [hsearch] at hsearch'
  cases hsearch'
  rfl

/-! ### One rule -/

theorem wholeDatum_eq_error_iff {digits : List Char} {fault : Fault} :
    wholeDatum digits = .error fault ↔
      Json.maxDigits < digits.length ∧ fault = .tooManyDigits digits.length := by
  unfold wholeDatum
  split
  · next hlong => simp [hlong, eq_comm]
  · next hlong => simp [hlong]

/-- What is captured is a datum, unless it is a number of too many digits. -/
theorem Pattern.datum_eq_error_iff {pattern : Pattern} {captured : List Char} {fault : Fault} :
    pattern.datum captured = .error fault ↔
      (pattern = .status ∨ pattern = .length) ∧ Json.maxDigits < captured.length ∧
        fault = .tooManyDigits captured.length := by
  cases pattern with
  | status => simp [datum, wholeDatum_eq_error_iff]
  | length => simp [datum, wholeDatum_eq_error_iff]
  | header name => simp [datum]
  | duration => simp [datum]
  | failure => simp [datum]

/-! ### Lists of rules -/

section
variable {stream : List Char} {rule : Rule} {rules : List Rule} {fault : Fault}

theorem findings_of_tooLong {count : Nat} (h : rule.pattern.TooLong stream count) :
    findings stream (rule :: rules) = .error (.tooManyDigits count) := by
  obtain ⟨hpattern, hlong, digits, hsearch, rfl⟩ := h
  have hdatum := Pattern.datum_eq_error_iff.2 ⟨hpattern, hlong, rfl⟩
  simp only [findings, hsearch, hdatum]

theorem findings_of_not_tooLong (h : ∀ count, ¬ rule.pattern.TooLong stream count) :
    findings stream (rule :: rules) = .error fault ↔ findings stream rules = .error fault := by
  cases hsearch : rule.pattern.search? stream with
  | none => simp [findings, hsearch]
  | some captured =>
      cases hdatum : rule.pattern.datum captured with
      | error fault' =>
          obtain ⟨hpattern, hlong, -⟩ := Pattern.datum_eq_error_iff.1 hdatum
          exact absurd ⟨hpattern, hlong, captured, hsearch, rfl⟩ (h captured.length)
      | ok datum =>
          simp only [findings, hsearch, hdatum]
          cases findings stream rules <;> simp [Except.map]

/-- The first rule that fails decides. -/
theorem findings_cons_eq_error_iff :
    findings stream (rule :: rules) = .error fault ↔
      (∃ count, rule.pattern.TooLong stream count ∧ fault = .tooManyDigits count) ∨
        (∀ count, ¬ rule.pattern.TooLong stream count) ∧
          findings stream rules = .error fault := by
  by_cases h : ∃ count, rule.pattern.TooLong stream count
  · obtain ⟨count, hcount⟩ := h
    rw [findings_of_tooLong hcount]
    constructor
    · rintro ⟨⟩
      exact .inl ⟨count, hcount, rfl⟩
    · rintro (⟨count', hcount', rfl⟩ | ⟨hnone, -⟩)
      · rw [hcount.eq hcount']
      · exact absurd hcount (hnone count)
  · have h : ∀ count, ¬ rule.pattern.TooLong stream count := fun count hcount => h ⟨count, hcount⟩
    rw [findings_of_not_tooLong h]
    constructor
    · exact fun herror => .inr ⟨h, herror⟩
    · rintro (⟨count, hcount, -⟩ | ⟨-, herror⟩)
      · exact absurd hcount (h count)
      · exact herror

/-- Rules fail only where one of them captures too many digits. -/
theorem findings_ne_error_of_not_tooLong
    (h : ∀ rule ∈ rules, ∀ count, ¬ rule.pattern.TooLong stream count) (fault : Fault) :
    findings stream rules ≠ .error fault := by
  induction rules with
  | nil => exact nofun
  | cons rule rules ih =>
      rw [ne_eq, findings_of_not_tooLong (h rule (.head _))]
      exact ih fun r hr => h r (.tail _ hr)

/-- Rules for texts and durations never fail. -/
theorem findings_ne_error
    (h : ∀ rule ∈ rules, rule.pattern ≠ .status ∧ rule.pattern ≠ .length) (fault : Fault) :
    findings stream rules ≠ .error fault :=
  findings_ne_error_of_not_tooLong
    (fun rule hrule _ hlong => hlong.1.elim (h rule hrule).1 (h rule hrule).2) fault

/-- Where the rules supply existing fields, what they find makes metadata. -/
theorem exists_ofFindings {found : List (String × Datum)}
    (h : ∀ f ∈ found, ∃ field, Field.ofName? f.1 = some field) (m : Metadata) :
    ∃ m', Metadata.ofFindings m found = .ok m' := by
  induction found generalizing m with
  | nil => exact ⟨m, rfl⟩
  | cons f found ih =>
      obtain ⟨field, hfield⟩ := h f (.head _)
      rw [Metadata.ofFindings, hfield]
      exact ih (fun g hg => h g (.tail _ hg)) _

/-- What one rule adds to what the others find. -/
theorem of_findings_cons_eq_ok {found : List (String × Datum)}
    (h : findings stream (rule :: rules) = .ok found) :
    rule.pattern.search? stream = none ∧ findings stream rules = .ok found ∨
      ∃ captured datum more, rule.pattern.search? stream = some captured ∧
        rule.pattern.datum captured = .ok datum ∧ findings stream rules = .ok more ∧
        found = (rule.field, datum) :: more := by
  rw [findings] at h
  split at h
  · next hsearch => exact .inl ⟨hsearch, h⟩
  · next captured hsearch =>
    split at h
    · cases h
    · next datum hdatum =>
      cases hrest : findings stream rules with
      | error fault =>
          rw [hrest] at h
          cases h
      | ok more =>
          rw [hrest] at h
          cases h
          exact .inr ⟨captured, datum, more, hsearch, hdatum, rfl, rfl⟩

/-- What is found is supplied by a rule: the field is the one of the rule, and the datum is what its
pattern makes of something that it captured. -/
theorem exists_rule_of_mem_findings {found : List (String × Datum)}
    (h : findings stream rules = .ok found) {f : String × Datum} (hf : f ∈ found) :
    ∃ rule ∈ rules, rule.field = f.1 ∧ ∃ captured, rule.pattern.datum captured = .ok f.2 := by
  induction rules generalizing found with
  | nil =>
      cases h
      cases hf
  | cons rule rules ih =>
      rcases of_findings_cons_eq_ok h with
        ⟨-, hrest⟩ | ⟨captured, datum, more, -, hdatum, hrest, rfl⟩
      · obtain ⟨r, hr, heq⟩ := ih hrest hf
        exact ⟨r, .tail _ hr, heq⟩
      · rcases List.mem_cons.1 hf with rfl | hmem
        · exact ⟨rule, .head _, rfl, captured, hdatum⟩
        · obtain ⟨r, hr, heq⟩ := ih hrest hmem
          exact ⟨r, .tail _ hr, heq⟩

end

namespace RuleSet

/-- Every rule of the set supplies an existing field. -/
def IsKnown (set : RuleSet) : Prop :=
  ∀ rule ∈ set.rules, ∃ field, Field.ofName? rule.field = some field

theorem of_mem_errorRules {set : RuleSet} {stream : List Char} {rule : Rule}
    (h : rule ∈ set.errorRules stream) :
    rule.field = Field.error.name ∧ set.errorPattern = some rule.pattern := by
  unfold errorRules at h
  split at h
  · cases h
  · next pattern heq =>
    split at h
    · obtain rfl := List.mem_singleton.1 h
      exact ⟨rfl, heq⟩
    · cases h

/-- With known fields, reading fails where the rules do. -/
theorem read_eq_error_iff {set : RuleSet} (hset : set.IsKnown) {stream : String} {fault : Fault} :
    (set.read stream).metadata = .error fault ↔ set.findings stream.toList = .error fault := by
  cases hfound : set.findings stream.toList with
  | error fault' => simp [read, hfound]
  | ok found =>
      have hfields : ∀ f ∈ found, ∃ field, Field.ofName? f.1 = some field := by
        intro f hf
        obtain ⟨rule, hrule, heq, -⟩ := exists_rule_of_mem_findings hfound hf
        rw [← heq]
        rcases List.mem_append.1 hrule with hmem | hmem
        · exact hset rule hmem
        · rw [(of_mem_errorRules hmem).1]
          exact ⟨.error, Field.ofName?_name .error⟩
      obtain ⟨m, hm⟩ := exists_ofFindings hfields .empty
      simp [read, hfound, hm]

theorem standard_isKnown : standard.IsKnown := by
  simp only [IsKnown, standard, Rule.ofHeader, List.forall_mem_cons, Field.ofName?_name]
  simp

/-- Reading by the standard rules fails where the status code or the content length has too many
digits, and if both have, with the status code. -/
theorem standard_read_eq_error_iff {stream : String} {fault : Fault} :
    (standard.read stream).metadata = .error fault ↔
      (∃ count, Pattern.status.TooLong stream.toList count ∧ fault = .tooManyDigits count) ∨
        (∀ count, ¬ Pattern.status.TooLong stream.toList count) ∧
          ∃ count, Pattern.length.TooLong stream.toList count ∧ fault = .tooManyDigits count := by
  -- Besides the two numbers there are only texts and the duration.
  obtain ⟨rest, hrules, hrest⟩ : ∃ rest,
      standard.rules ++ standard.errorRules stream.toList =
        ⟨Field.statusCode.name, .status⟩ :: .ofHeader Field.contentType.name "Content-Type" ::
          ⟨Field.contentLength.name, .length⟩ :: rest ∧
        ∀ rule ∈ rest, rule.pattern ≠ .status ∧ rule.pattern ≠ .length := by
    refine ⟨_, rfl, fun rule hrule => ?_⟩
    rcases List.mem_append.1 hrule with hmem | hmem
    · have hothers : ∀ rule ∈ standard.rules.drop 3,
          rule.pattern ≠ .status ∧ rule.pattern ≠ .length := by decide
      exact hothers rule hmem
    · have hpattern : rule.pattern = .failure := (Option.some.inj (of_mem_errorRules hmem).2).symm
      rw [hpattern]
      decide
  have hheader : ∀ count,
      ¬ (Rule.ofHeader Field.contentType.name "Content-Type").pattern.TooLong stream.toList count :=
    fun _ hlong => by cases hlong.1 <;> contradiction
  rw [read_eq_error_iff standard_isKnown, RuleSet.findings, hrules, findings_cons_eq_error_iff,
    findings_of_not_tooLong hheader, findings_cons_eq_error_iff]
  simp [findings_ne_error hrest]

end RuleSet

end CurlWarden.Diagnostics
