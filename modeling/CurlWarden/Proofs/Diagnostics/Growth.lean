import CurlWarden.Proofs.Diagnostics.Match

/-!
# What is found in a stream as it grows

A diagnostic stream is written line by line, and may be read before all of it is there. What has
been found by then is final: lines that come later may add what was missing, but change nothing
(`RuleSet.standard_read_stays`).

A pattern is searched for from the left, so this is not a matter of the new lines alone. They might
complete a match that begins in the old ones. Only a status line can be completed so, and it holds
no mark but its own, so it begins after everything that was found before (`Pattern.Finds.append`).
-/

namespace CurlWarden.Diagnostics

open Text (IsOneLine)

namespace Pattern

variable {pattern : Pattern} {stream here more captured : List Char}

/-- What a pattern is found to capture, it captures whatever the next lines are. -/
theorem Finds.append (h : pattern.Finds stream captured) (hmark : IsOneLine pattern.mark)
    (hmore : ∀ c ∈ more.head?, isLineEnd c = true) : pattern.Finds (stream ++ more) captured := by
  obtain ⟨before, here, rfl, hfits, hfirst⟩ := h
  refine ⟨before, here ++ more, List.append_assoc _ _ _, hfits.append hmore, ?_⟩
  intro earlier there hsplit hlength other hother
  -- The place lies before the match, so the match and what follows it are left there.
  obtain ⟨gap, rfl, rfl⟩ : ∃ gap, before = earlier ++ gap ∧ there = gap ++ here ++ more := by
    rw [List.append_assoc] at hsplit
    rcases List.append_eq_append_iff.1 hsplit with ⟨beyond, rfl, -⟩ | ⟨gap, rfl, rfl⟩
    · rw [List.length_append] at hlength
      omega
    · exact ⟨gap, rfl, (List.append_assoc _ _ _).symm⟩
  rcases hother.of_append hmore with hwhole | ⟨c, beyond, hc, hbroken, -⟩
  · exact hfirst earlier (gap ++ here) (List.append_assoc _ _ _) hlength other hwhole
  · obtain rfl : pattern = .status := hbroken.eq_status hmark hc (by simp)
    obtain ⟨matched, rest, rfl, hmatch, -⟩ := fits_iff.1 hfits
    obtain ⟨tail, rfl, -⟩ := hmatch.exists_status
    obtain ⟨more', hmore', hnot⟩ := hbroken.exists_status
    cases gap with
    | nil => simp at hlength
    | cons d gap =>
        obtain ⟨-, rfl⟩ := List.cons.inj hmore'
        exact hnot (by simp)

end Pattern

namespace RuleSet

/-- The rule for the error text is not given up as the stream grows. -/
theorem errorRules_subset_append (set : RuleSet) (stream more : List Char) :
    set.errorRules stream ⊆ set.errorRules (stream ++ more) := by
  intro rule hrule
  unfold errorRules at hrule ⊢
  split at hrule
  · cases hrule
  · split at hrule
    · next hmarker =>
      obtain ⟨marker, hmem, hoccurs⟩ := List.any_eq_true.1 hmarker
      have hlater : marker.toList <:+: stream ++ more :=
        (Text.occurs_iff.1 hoccurs).trans (List.prefix_append _ _).isInfix
      rw [if_pos (List.any_eq_true.2 ⟨marker, hmem, Text.occurs_iff.2 hlater⟩)]
      exact hrule
    · cases hrule

/-- What the standard rules read from a stream stays as it is when more lines follow. -/
theorem standard_read_stays (earlier later : String) {m m' : Metadata}
    (hearlier : (standard.read earlier).metadata = .ok m)
    (hlater : (standard.read (earlier ++ "\n" ++ later)).metadata = .ok m') {field : Field}
    {datum : Datum} (hdatum : m.get? field = some datum) : m'.get? field = some datum := by
  have hstream : (earlier ++ "\n" ++ later).toList = earlier.toList ++ '\n' :: later.toList := by
    simp
  obtain ⟨rule, hrule, hfield, captured, hfinds, hcaptured⟩ :=
    (get?_standard_read_iff hearlier).1 hdatum
  apply (get?_standard_read_iff hlater).2
  rw [hstream]
  have hfinds' : IsOneLine rule.pattern.mark →
      rule.pattern.Finds (earlier.toList ++ '\n' :: later.toList) captured := by
    intro hmark
    apply hfinds.append hmark
    rintro c ⟨⟩
    rfl
  rcases List.mem_append.1 hrule with hmem | hmem
  · exact ⟨rule, List.mem_append_left _ hmem, hfield, captured, hfinds' (isOneLine_mark hmem),
      hcaptured⟩
  · refine ⟨rule, List.mem_append_right _ (errorRules_subset_append _ _ _ hmem), hfield, captured,
      hfinds' ?_, hcaptured⟩
    rw [← Option.some.inj (of_mem_errorRules hmem).2]
    decide

/-- A status line that is broken at the end of what was there first is completed later, but by then
another status has been found. -/
theorem standard_read_stays_redirect : ∃ m m',
    (standard.read "< HTTP/1.1 301 Moved\n< HTTP/1.1").metadata = .ok m ∧
    (standard.read ("< HTTP/1.1 301 Moved\n< HTTP/1.1" ++ "\n" ++ "200 OK\n< ETag: a")).metadata
      = .ok m' ∧
    m.get? .statusCode = some (.number 301) ∧ m'.get? .statusCode = some (.number 301) ∧
    m'.get? .etag = some (.text "a") := by
  obtain ⟨m, hm⟩ := exists_standard_read "< HTTP/1.1 301 Moved\n< HTTP/1.1" (by decide)
  obtain ⟨m', hm'⟩ := exists_standard_read
    ("< HTTP/1.1 301 Moved\n< HTTP/1.1" ++ "\n" ++ "200 OK\n< ETag: a") (by decide)
  have hstatus : m.get? .statusCode = some (.number 301) :=
    (get?_standard_read_iff hm).2 ⟨⟨Field.statusCode.name, .status⟩, .head _, rfl, "301".toList,
      Pattern.search?_eq_some_iff.1 (by decide), by decide⟩
  refine ⟨m, m', hm, hm', hstatus, standard_read_stays _ _ hm hm' hstatus, ?_⟩
  exact (get?_standard_read_iff hm').2 ⟨.ofHeader Field.etag.name "ETag", by decide, rfl,
    "a".toList, Pattern.search?_eq_some_iff.1 (by decide), by decide⟩

end RuleSet

end CurlWarden.Diagnostics
