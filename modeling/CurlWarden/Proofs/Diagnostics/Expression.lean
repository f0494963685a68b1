import CurlWarden.Diagnostics.Pattern

/-!
# Patterns as regular expressions

The patterns of the diagnostic stream are regular expressions, and what they capture is what a
backtracking search for these captures: the search starts at every place from the left, and at each
place it tries every *way* to match in turn, longer runs before shorter ones and an optional part
before its absence (`Expression.ways`).

The scanners never go back. What keeps the two together is that each run is followed by something
that no character of the run can start (`Expression.StartsOutside`), so of all ways only those count
that take the whole run (`Expression.ways_run_seq`).

* `Pattern.search?_eq_search` — every pattern is its expression, on every text.
-/

namespace CurlWarden.Diagnostics

/-- A regular expression with one group. -/
inductive Expression where
  /-- The text itself. -/
  | text (mark : List Char)
  /-- One character or more of a class, as many as possible. -/
  | run (isIn : Char → Bool)
  /-- The expression, or else nothing. -/
  | optional (e : Expression)
  /-- One expression and then the other. -/
  | seq (e f : Expression)
  /-- The expression, which is captured. -/
  | group (e : Expression)

/-- A way to match the start of a text: what is captured, if anything is, and what is left. -/
structure Way where
  captured : Option (List Char)
  rest : List Char

/-- What each run of characters of a class at the start of a text leaves, the longest run first. -/
def runs (isIn : Char → Bool) : List Char → List (List Char)
  | [] => []
  | c :: cs => if isIn c then runs isIn cs ++ [cs] else []

namespace Expression

/-- Every way to match the start of a text, in the order in which a search tries them. -/
def ways : Expression → List Char → List Way
  | .text mark, cs => (Text.after? mark cs).toList.map (⟨none, ·⟩)
  | .run isIn, cs => (runs isIn cs).map (⟨none, ·⟩)
  | .optional e, cs => e.ways cs ++ [⟨none, cs⟩]
  | .seq e f, cs => (e.ways cs).flatMap fun way =>
      (f.ways way.rest).map fun next => ⟨next.captured <|> way.captured, next.rest⟩
  | .group e, cs => (e.ways cs).map fun way =>
      ⟨some (cs.take (cs.length - way.rest.length)), way.rest⟩

/-- What the first way to match the start of a text captures. -/
def capture? (e : Expression) (cs : List Char) : Option (List Char) :=
  (e.ways cs).head?.bind Way.captured

/-- What is captured at the leftmost place at which the expression matches. -/
def search? (e : Expression) (cs : List Char) : Option (List Char) :=
  (Text.firstMatch (fun here => (e.ways here).head?) cs).bind Way.captured

end Expression

/-! ### Runs -/

/-- The text starts with a run of characters of a class, which cannot be made longer. -/
structure IsRun (isIn : Char → Bool) (run rest : List Char) : Prop where
  ne_nil : run ≠ []
  mem : ∀ c ∈ run, isIn c = true
  stop : ∀ c ∈ rest.head?, isIn c = false

variable {isIn : Char → Bool} {cs : List Char}

theorem run?_eq_some_iff {run rest : List Char} :
    run? isIn cs = some (run, rest) ↔ cs = run ++ rest ∧ IsRun isIn run rest := by
  rw [run?]
  constructor
  · intro h
    split at h
    · cases h
    · next hempty =>
      cases h
      refine ⟨List.takeWhile_append_dropWhile.symm, by simpa using hempty,
        List.all_eq_true.1 List.all_takeWhile, fun c hc => ?_⟩
      have hstop := List.head?_dropWhile_not isIn cs
      rw [Option.mem_def.1 hc] at hstop
      simpa using hstop
  · rintro ⟨rfl, hne, hmem, hstop⟩
    have hhead : rest.takeWhile isIn = [] ∧ rest.dropWhile isIn = rest := by
      cases rest with
      | nil => exact ⟨rfl, rfl⟩
      | cons c rest => simp [hstop c rfl]
    rw [List.takeWhile_append_of_pos hmem, List.dropWhile_append_of_pos hmem, hhead.1, hhead.2]
    simpa using hne

theorem run?_cons_of_pos {c : Char} (h : isIn c = true) :
    run? isIn (c :: cs) = some (c :: cs.takeWhile isIn, cs.dropWhile isIn) := by
  simp [run?, h]

theorem run?_cons_of_neg {c : Char} (h : isIn c = false) : run? isIn (c :: cs) = none := by
  simp [run?, h]

/-- The first of all runs is the longest. -/
theorem head?_runs (cs : List Char) : (runs isIn cs).head? = (run? isIn cs).map (·.2) := by
  induction cs with
  | nil => rfl
  | cons c cs ih =>
      cases hc : isIn c with
      | false => simp [runs, hc, run?_cons_of_neg hc]
      | true =>
          rw [runs, if_pos hc, List.head?_append, ih, run?_cons_of_pos hc]
          -- The run ends here, or at the end of the run that starts here.
          cases cs with
          | nil => rfl
          | cons d cs =>
              cases hd : isIn d with
              | false => simp [run?_cons_of_neg hd, hd]
              | true => simp [run?_cons_of_pos hd, hd]

/-- Where what follows cannot start with a character of the run, only the longest run counts. -/
theorem flatMap_runs {α : Type} {f : List Char → List α}
    (h : ∀ c cs, isIn c = true → f (c :: cs) = []) (cs : List Char) :
    (runs isIn cs).flatMap f = (run? isIn cs).toList.flatMap (f ·.2) := by
  induction cs with
  | nil => rfl
  | cons c cs ih =>
      cases hc : isIn c with
      | false => simp [runs, hc, run?_cons_of_neg hc]
      | true =>
          rw [runs, if_pos hc, List.flatMap_append, ih, run?_cons_of_pos hc]
          cases cs with
          | nil => simp [run?]
          | cons d cs =>
              cases hd : isIn d with
              | false => simp [run?_cons_of_neg hd, hd]
              | true => simp [run?_cons_of_pos hd, hd, h d cs hd]

/-! ### Sequences -/

namespace Expression

variable {e f g : Expression} {mark : List Char}

/-- Nothing that starts with a character of the class matches. -/
def StartsOutside (e : Expression) (isIn : Char → Bool) : Prop :=
  ∀ c cs, isIn c = true → e.ways (c :: cs) = []

theorem ways_text_seq (mark : List Char) (e : Expression) (cs : List Char) :
    ((text mark).seq e).ways cs = (Text.after? mark cs).toList.flatMap e.ways := by
  simp [ways, List.flatMap_map]

theorem ways_run_seq (h : e.StartsOutside isIn) (cs : List Char) :
    ((run isIn).seq e).ways cs = (run? isIn cs).toList.flatMap (e.ways ·.2) := by
  rw [← flatMap_runs h]
  simp [ways, List.flatMap_map]

theorem ways_optional_seq (e f : Expression) (cs : List Char) :
    (e.optional.seq f).ways cs = (e.seq f).ways cs ++ f.ways cs := by
  simp [ways]

theorem ways_seq_assoc (e f g : Expression) (cs : List Char) :
    ((e.seq f).seq g).ways cs = (e.seq (f.seq g)).ways cs := by
  simp [ways, List.flatMap_assoc, List.flatMap_map, List.map_flatMap, Function.comp_def,
    Option.or_assoc]

/-- A mark that starts with no character of a class is not found at one. -/
theorem after?_eq_none (h : ∃ d ∈ mark.head?, isIn d = false) {c : Char} (hc : isIn c = true) :
    Text.after? mark (c :: cs) = none := by
  obtain ⟨d, hd, hout⟩ := h
  obtain ⟨mark, rfl⟩ := List.head?_eq_some_iff.1 hd
  have hne : d ≠ c := fun heq => by rw [heq, hc] at hout; cases hout
  simp [Text.after?, hne]

/-- The way past a mark, if it is there, where all before the mark is captured. -/
def pastMark (mark cs left : List Char) : List Way :=
  (Text.after? mark left).toList.map (⟨some (cs.take (cs.length - left.length)), ·⟩)

theorem ways_group_seq_text (e : Expression) (mark cs : List Char) :
    (e.group.seq (text mark)).ways cs = (e.ways cs).flatMap (pastMark mark cs ·.rest) := by
  simp [ways, pastMark, List.flatMap_map, Function.comp_def]

/-- Of the ways to end a run, a mark after it that starts with no character of the run leaves the
longest. -/
theorem flatMap_ways_run_pastMark {mark : List Char} (h : ∃ d ∈ mark.head?, isIn d = false)
    (cs rest : List Char) :
    ((run isIn).ways rest).flatMap (pastMark mark cs ·.rest) =
      (run? isIn rest).toList.flatMap (pastMark mark cs ·.2) := by
  have hnone : ∀ c left, isIn c = true → pastMark mark cs (c :: left) = [] := by
    intro c left hc
    rw [pastMark, after?_eq_none h hc]
    rfl
  rw [← flatMap_runs hnone, ways, List.flatMap_map]

/-! Expressions that start outside a class. -/

theorem startsOutside_text (h : ∃ d ∈ mark.head?, isIn d = false) :
    (text mark).StartsOutside isIn := by
  intro c cs hc
  rw [ways, after?_eq_none h hc]
  rfl

theorem startsOutside_run {isIn' : Char → Bool} (h : ∀ c, isIn c = true → isIn' c = false) :
    (run isIn').StartsOutside isIn := by
  intro c cs hc
  simp [ways, runs, h c hc]

theorem StartsOutside.seq (h : e.StartsOutside isIn) (f : Expression) :
    (e.seq f).StartsOutside isIn := by
  intro c cs hc
  simp [ways, h c cs hc]

theorem StartsOutside.optional_seq (h : e.StartsOutside isIn) (hf : f.StartsOutside isIn) :
    (e.optional.seq f).StartsOutside isIn := by
  intro c cs hc
  rw [ways_optional_seq, h.seq f c cs hc, hf c cs hc]
  rfl

theorem StartsOutside.group (h : e.StartsOutside isIn) : e.group.StartsOutside isIn := by
  intro c cs hc
  simp [ways, h c cs hc]

/-! What is captured. -/

theorem head?_toList_flatMap {α β : Type} (o : Option α) (f : α → List β) :
    (o.toList.flatMap f).head? = o.bind fun a => (f a).head? := by
  cases o <;> simp

theorem capture?_text_seq (mark : List Char) (e : Expression) (cs : List Char) :
    ((text mark).seq e).capture? cs = (Text.after? mark cs).bind e.capture? := by
  rw [capture?, ways_text_seq, head?_toList_flatMap, Option.bind_assoc]
  rfl

theorem capture?_run_seq (h : e.StartsOutside isIn) (cs : List Char) :
    ((run isIn).seq e).capture? cs = (run? isIn cs).bind (e.capture? ·.2) := by
  rw [capture?, ways_run_seq h, head?_toList_flatMap, Option.bind_assoc]
  rfl

theorem capture?_seq_assoc (e f g : Expression) (cs : List Char) :
    ((e.seq f).seq g).capture? cs = (e.seq (f.seq g)).capture? cs := by
  rw [capture?, ways_seq_assoc, capture?]

/-- An optional part is there, if what follows cannot start in its place. -/
theorem capture?_optional_seq_of_right (h : f.ways cs = []) :
    (e.optional.seq f).capture? cs = (e.seq f).capture? cs := by
  rw [capture?, ways_optional_seq, h, List.append_nil, capture?]

theorem capture?_optional_seq_of_left (h : e.ways cs = []) :
    (e.optional.seq f).capture? cs = f.capture? cs := by
  rw [capture?, ways_optional_seq, ways, h, capture?]
  rfl

/-- A run that is captured is the longest one. -/
theorem capture?_group_run (cs : List Char) :
    (run isIn).group.capture? cs = (run? isIn cs).map (·.1) := by
  simp only [capture?, ways, List.head?_map, head?_runs]
  cases hrun : run? isIn cs with
  | none => rfl
  | some parts =>
      obtain ⟨rfl, -⟩ := run?_eq_some_iff.1 hrun
      simp

end Expression

/-! ### Groups -/

namespace Expression

variable {e f : Expression}

/-- However the expression matches, something is captured. -/
def Captures (e : Expression) : Prop := ∀ cs, ∀ way ∈ e.ways cs, way.captured.isSome = true

theorem captures_group (e : Expression) : e.group.Captures := by
  intro cs way hway
  simp only [ways, List.mem_map] at hway
  obtain ⟨-, -, rfl⟩ := hway
  rfl

theorem Captures.seq_left (h : e.Captures) (f : Expression) : (e.seq f).Captures := by
  intro cs way hway
  simp only [ways, List.mem_flatMap, List.mem_map] at hway
  obtain ⟨first, hfirst, next, -, rfl⟩ := hway
  simp [h cs first hfirst]

theorem Captures.seq_right (h : f.Captures) (e : Expression) : (e.seq f).Captures := by
  intro cs way hway
  simp only [ways, List.mem_flatMap, List.mem_map] at hway
  obtain ⟨first, -, next, hnext, rfl⟩ := hway
  simp [h _ next hnext]

/-- Where something is always captured, the leftmost place that matches is the leftmost place that
captures. -/
theorem Captures.search? (h : e.Captures) (cs : List Char) :
    e.search? cs = Text.firstMatch e.capture? cs := by
  have hhead : ∀ here, (e.ways here).head? = none ∨ ∃ way captured,
      (e.ways here).head? = some way ∧ way.captured = some captured := by
    intro here
    cases hways : e.ways here with
    | nil => exact .inl rfl
    | cons way more =>
        have hsome := h here way (by rw [hways]; exact .head _)
        exact .inr ⟨way, way.captured.get hsome, rfl, (Option.some_get hsome).symm⟩
  rw [Expression.search?]
  induction cs with
  | nil => rfl
  | cons c cs ih =>
      rw [Text.firstMatch, Text.firstMatch]
      rcases hhead (c :: cs) with hnone | ⟨way, captured, hway, hcaptured⟩
      · simp only [capture?, hnone, Option.bind_none]
        exact ih
      · simp [capture?, hway, hcaptured]

end Expression

/-! ### The patterns -/

theorem isDigit_eq_false_of_isBlank {c : Char} (h : Text.isBlank c = true) :
    Text.isDigit c = false := by
  -- Of the blanks beyond ASCII, one is U+1680, and those after it lie from U+2000 to U+3000.
  have hruns : ∀ start ∈ Text.digitRuns,
      (start + 10 ≤ 0x1680 ∨ 0x1680 < start) ∧ (start + 10 ≤ 0x2000 ∨ 0x3000 < start) := by decide
  simp only [Text.isBlank, Bool.or_eq_true, Bool.and_eq_true, decide_eq_true_eq, beq_iff_eq] at h
  rw [Text.isDigit, Text.digitValue?]
  split
  · rw [if_neg (by simp; omega)]
    rfl
  · have hnone : (Text.digitRuns.find? fun start => start ≤ c.toNat && c.toNat < start + 10) =
        none := by
      rw [List.find?_eq_none]
      intro start hmem
      have hstart := hruns start hmem
      simp
      omega
    rw [hnone]
    rfl

namespace Pattern

open Expression

/-- The pattern as a regular expression. -/
def expression : Pattern → Expression
  | .status => .seq (.text "< HTTP/".toList) (.seq (.run Text.isDigit)
      (.seq (.optional (.seq (.text ['.']) (.run Text.isDigit)))
        (.seq (.run Text.isBlank) (.group (.run Text.isDigit)))))
  | .header name => .seq (.text ("< " ++ name ++ ": ").toList) (.group (.run (!isLineEnd ·)))
  | .length => .seq (.text "< Content-Length: ".toList) (.group (.run Text.isDigit))
  | .duration => .seq (.group (.seq (.run Text.isDigit) (.seq (.text ['.'])
      (.run Text.isDigit)))) (.text " secs".toList)
  | .failure => .seq (.text "curl: (".toList) (.seq (.run Text.isDigit)
      (.seq (.text ") ".toList) (.group (.run (!isLineEnd ·)))))

/-- The version number is read as the expression reads it, whatever follows it, as long as that
starts with a blank. -/
theorem bind_afterVersion? {f : Expression} (hdigit : f.StartsOutside Text.isDigit)
    (hpoint : f.StartsOutside (· == '.')) (cs : List Char) :
    (afterVersion? cs).bind f.capture? =
      ((run Text.isDigit).seq
        (((text ['.']).seq (run Text.isDigit)).optional.seq f)).capture? cs := by
  have hout : (text ['.']).StartsOutside Text.isDigit := startsOutside_text ⟨'.', rfl, by decide⟩
  rw [capture?_run_seq ((hout.seq _).optional_seq hdigit), afterVersion?, Option.bind_map]
  refine congrArg _ (funext fun ⟨_, rest⟩ => ?_)
  dsimp only [Function.comp_apply]
  split
  · next more =>
    -- A point is read only if there are digits after it, but without them nothing fits anyway.
    have hnone : f.ways ('.' :: more) = [] := hpoint '.' more rfl
    rw [capture?_optional_seq_of_right hnone, capture?_seq_assoc, capture?_text_seq]
    have hafter : Text.after? ['.'] ('.' :: more) = some more := rfl
    rw [hafter, Option.bind_some, capture?_run_seq hdigit]
    cases run? Text.isDigit more with
    | none => simp [capture?, hnone]
    | some parts => rfl
  · next hnone =>
    apply Eq.symm
    apply capture?_optional_seq_of_left
    have hafter : Text.after? ['.'] rest = none := by
      rw [Option.eq_none_iff_forall_not_mem]
      rintro more hmore
      exact hnone more (Text.after?_eq_some_iff.1 hmore)
    rw [ways_text_seq, hafter]
    rfl

theorem ways_duration (cs : List Char) : Pattern.duration.expression.ways cs =
    (run? Text.isDigit cs).toList.flatMap fun parts =>
      (Text.after? ['.'] parts.2).toList.flatMap fun more =>
        (run? Text.isDigit more).toList.flatMap (pastMark " secs".toList cs ·.2) := by
  have hpoint : ((text ['.']).seq (run Text.isDigit)).StartsOutside Text.isDigit :=
    (startsOutside_text ⟨'.', rfl, by decide⟩).seq _
  rw [expression, ways_group_seq_text, ways_run_seq hpoint, List.flatMap_assoc]
  refine congrArg (List.flatMap · _) (funext fun parts => ?_)
  rw [ways_text_seq, List.flatMap_assoc]
  refine congrArg (List.flatMap · _) (funext fun more => ?_)
  exact flatMap_ways_run_pastMark ⟨' ', rfl, by decide⟩ cs more

theorem body?_duration (cs : List Char) : Pattern.duration.body? cs =
    (run? Text.isDigit cs).bind fun parts => (Text.after? ['.'] parts.2).bind fun more =>
      (run? Text.isDigit more).bind fun parts' =>
        (Text.after? " secs".toList parts'.2).map fun _ => parts.1 ++ '.' :: parts'.1 := by
  simp only [Option.map_eq_bind]
  rfl

theorem capture?_duration (cs : List Char) :
    Pattern.duration.expression.capture? cs = Pattern.duration.body? cs := by
  rw [capture?, ways_duration, body?_duration]
  generalize " secs".toList = mark
  cases hwhole : run? Text.isDigit cs with
  | none => rfl
  | some parts =>
      obtain ⟨whole, rest⟩ := parts
      cases hrest : Text.after? ['.'] rest with
      | none => simp [hrest]
      | some more =>
          cases hfraction : run? Text.isDigit more with
          | none => simp [hrest, hfraction]
          | some parts =>
              obtain ⟨fraction, left⟩ := parts
              have htext : cs = (whole ++ '.' :: fraction) ++ left := by
                rw [(run?_eq_some_iff.1 hwhole).1, Text.after?_eq_some_iff.1 hrest,
                  (run?_eq_some_iff.1 hfraction).1]
                simp
              have htaken : cs.take (cs.length - left.length) = whole ++ '.' :: fraction := by
                rw [htext, List.length_append, Nat.add_sub_cancel, List.take_left]
              cases hmark : Text.after? mark left with
              | none => simp [hrest, hfraction, pastMark, hmark]
              | some past => simp [hrest, hfraction, pastMark, hmark, htaken]

/-- At every place, the pattern captures what the first way to match its expression captures. -/
theorem bind_body? (pattern : Pattern) (cs : List Char) :
    (Text.after? pattern.mark cs).bind pattern.body? = pattern.expression.capture? cs := by
  cases pattern with
  | status =>
      rw [expression, capture?_text_seq]
      refine congrArg _ (funext fun cs => ?_)
      have hblank : ∀ c, Text.isBlank c = true → Text.isDigit c = false := fun _ =>
        isDigit_eq_false_of_isBlank
      have hdigit : ∀ c, Text.isDigit c = true → Text.isBlank c = false := fun c hc =>
        Bool.eq_false_iff.2 fun h => by rw [hblank c h] at hc; cases hc
      rw [← bind_afterVersion? ((startsOutside_run hdigit).seq _)
        ((startsOutside_run fun c hc => by rw [eq_of_beq hc]; decide).seq _)]
      show (afterVersion? cs).bind _ = _
      refine congrArg _ (funext fun rest => ?_)
      rw [capture?_run_seq (startsOutside_run hblank).group]
      show (run? Text.isBlank rest).bind _ = _
      refine congrArg _ (funext fun parts => ?_)
      rw [capture?_group_run]
  | header name =>
      rw [expression, capture?_text_seq]
      refine congrArg _ (funext fun cs => ?_)
      rw [capture?_group_run]
      rfl
  | length =>
      rw [expression, capture?_text_seq]
      refine congrArg _ (funext fun cs => ?_)
      rw [capture?_group_run]
      rfl
  | duration => exact (capture?_duration cs).symm
  | failure =>
      rw [expression, capture?_text_seq]
      refine congrArg _ (funext fun cs => ?_)
      rw [capture?_run_seq ((startsOutside_text ⟨')', rfl, by decide⟩).seq _)]
      show (run? Text.isDigit cs).bind _ = _
      refine congrArg _ (funext fun parts => ?_)
      rw [capture?_text_seq]
      show (Text.after? ") ".toList parts.2).bind _ = _
      refine congrArg _ (funext fun rest => ?_)
      rw [capture?_group_run]
      rfl

/-- What is searched for by hand is what a search for the expression with backtracking finds. -/
theorem search?_eq_search (pattern : Pattern) (cs : List Char) :
    pattern.search? cs = pattern.expression.search? cs := by
  have hcaptures : pattern.expression.Captures := by
    cases pattern with
    | status => exact ((((captures_group _).seq_right _).seq_right _).seq_right _).seq_right _
    | header name => exact (captures_group _).seq_right _
    | length => exact (captures_group _).seq_right _
    | duration => exact (captures_group _).seq_left _
    | failure => exact (((captures_group _).seq_right _).seq_right _).seq_right _
  rw [hcaptures.search?, Pattern.search?]
  exact congrArg (Text.firstMatch · cs) (funext pattern.bind_body?)

example : Pattern.duration.expression.search? "took 1.2.3 secs".toList = some "2.3".toList := by
  decide

end Pattern

end CurlWarden.Diagnostics
