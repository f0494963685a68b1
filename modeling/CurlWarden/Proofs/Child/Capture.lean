import CurlWarden.Proofs.Child.Bounds
import CurlWarden.Proofs.Text.Broken

/-!
# Output does not depend on how it arrives

What a run captures of a child that is done in time is decided by the bytes on its two streams alone
(`IsCaptured`): not by the pieces that they arrive in, nor by how those of one stream fall between
those of the other.

* `foldlM_take` — two readers share one budget, and whatever pieces they hear of, in whatever order,
  they come to what the joined bytes come to. One piece is `take_eq`, and an induction over the
  pieces does the rest.
* `joined_inOrder` — in order of arrival, the pieces of a child join to the bytes on its streams:
  sorting all of them leaves those of one stream as they would be sorted alone (`filter_inOrder`).
* `run_isCaptured` — two children that write the same end their runs alike, and what is captured is
  the text of the joined bytes, with replacement characters only where no text is.
-/

namespace CurlWarden.Child

/-! ### Two readers and one budget -/

/-- The bytes of those pieces that are on a stream. -/
def joined (chunks : List Chunk) (stream : Stream) : List UInt8 :=
  (chunks.filter (·.stream = stream)).flatMap (·.bytes)

/-- How many bytes the pieces have, on both streams together. -/
def size (chunks : List Chunk) : Nat := (chunks.map (·.bytes.length)).sum

/-- Two readers, one for each stream: how many more bytes may come, and what has been read. -/
structure Readers where
  budget : Int
  read : Stream → List UInt8

namespace Readers

/-- The readers at the start of a run. -/
def ofLimits (limits : Limits) : Readers where
  budget := limits.maxOutputBytes
  read _ := []

/-- Reads a piece, if the budget is not overdrawn by it. The budget is only asked when there are
bytes to be read. -/
def take (readers : Readers) (chunk : Chunk) : Option Readers :=
  if chunk.bytes = [] then some readers
  else if readers.budget - chunk.bytes.length < 0 then none
  else some
    { budget := readers.budget - chunk.bytes.length
      read := fun stream =>
        if chunk.stream = stream then readers.read stream ++ chunk.bytes else readers.read stream }

/-- The text that was read from a stream. -/
def text (readers : Readers) (stream : Stream) : String :=
  String.ofList (Text.Utf8.decode (readers.read stream))

end Readers

/-- What a run comes to whose readers hear of these pieces, and whose child is then done. -/
def collected (limits : Limits) (exitCode : Option Int) (time : Nat) (chunks : List Chunk) :
    Conclusion :=
  match chunks.foldlM Readers.take (.ofLimits limits) with
  | none => .failed .outputLimit
  | some readers =>
    .finished ⟨readers.text .out, readers.text .err, exitCode.getD unknownExitCode, time⟩

theorem joined_cons (chunk : Chunk) (chunks : List Chunk) (stream : Stream) :
    joined (chunk :: chunks) stream =
      (if chunk.stream = stream then chunk.bytes else []) ++ joined chunks stream := by
  by_cases h : chunk.stream = stream
  · simp [joined, h]
  · simp [joined, h]

theorem size_cons (chunk : Chunk) (chunks : List Chunk) :
    size (chunk :: chunks) = chunk.bytes.length + size chunks := rfl

/-- Every byte is on one of the two streams. -/
theorem length_joined_add (chunks : List Chunk) :
    (joined chunks .out).length + (joined chunks .err).length = size chunks := by
  induction chunks with
  | nil => rfl
  | cons chunk chunks ih =>
      rw [joined_cons, joined_cons, size_cons, ← ih]
      cases chunk.stream with
      | out =>
          simp
          omega
      | err =>
          simp
          omega

/-- One piece: it is too much, or it is read. -/
theorem take_eq (readers : Readers) (chunk : Chunk) : readers.take chunk =
    if 0 < chunk.bytes.length ∧ readers.budget < chunk.bytes.length then none
    else some ⟨readers.budget - chunk.bytes.length, fun stream =>
      readers.read stream ++ if chunk.stream = stream then chunk.bytes else []⟩ := by
  by_cases hempty : chunk.bytes = []
  · simp [Readers.take, hempty]
  · have hpos := List.length_pos_iff.2 hempty
    rw [Readers.take, if_neg hempty]
    by_cases hover : readers.budget < chunk.bytes.length
    · rw [if_pos (by omega), if_pos ⟨hpos, hover⟩]
    · rw [if_neg (by omega), if_neg fun h => hover h.2]
      congr 2
      funext stream
      by_cases hstream : chunk.stream = stream
      · simp [hstream]
      · simp [hstream]

/-- All pieces: what they come to depends on what they join to, and on nothing else. -/
theorem foldlM_take (readers : Readers) (chunks : List Chunk) :
    chunks.foldlM Readers.take readers =
      if 0 < size chunks ∧ readers.budget < size chunks then none
      else some ⟨readers.budget - size chunks, fun stream =>
        readers.read stream ++ joined chunks stream⟩ := by
  induction chunks generalizing readers with
  | nil => simp [size, joined]
  | cons chunk chunks ih =>
      rw [List.foldlM_cons, take_eq, size_cons]
      by_cases hchunk : 0 < chunk.bytes.length ∧ readers.budget < chunk.bytes.length
      · rw [if_pos hchunk, if_pos (by omega)]
        rfl
      · rw [if_neg hchunk, Option.bind_eq_bind, Option.bind_some, ih]
        by_cases hrest : 0 < size chunks ∧ readers.budget - chunk.bytes.length < size chunks
        · rw [if_pos hrest, if_pos (by omega)]
        · rw [if_neg hrest, if_neg (by omega)]
          simp only [joined_cons, List.append_assoc, Nat.cast_add, sub_sub]

theorem collected_eq (limits : Limits) (exitCode : Option Int) (time : Nat) (chunks : List Chunk) :
    collected limits exitCode time chunks =
      if 0 < size chunks ∧ limits.maxOutputBytes < size chunks then .failed .outputLimit
      else .finished ⟨String.ofList (Text.Utf8.decode (joined chunks .out)),
        String.ofList (Text.Utf8.decode (joined chunks .err)),
        exitCode.getD unknownExitCode, time⟩ := by
  rw [collected, foldlM_take, Readers.ofLimits]
  by_cases hover : 0 < size chunks ∧ limits.maxOutputBytes < size chunks
  · rw [if_pos hover, if_pos hover]
  · rw [if_neg hover, if_neg hover]
    simp only [Readers.text, List.nil_append]

/-! ### The order of arrival -/

/-- The pieces in order of arrival. -/
def inOrder (chunks : List Chunk) : List Chunk := chunks.mergeSort fun a b => a.time ≤ b.time

/-- The first piece goes behind those that arrive sooner. -/
theorem exists_inOrder_cons (chunk : Chunk) (chunks : List Chunk) : ∃ front back,
    inOrder (chunk :: chunks) = front ++ chunk :: back ∧ inOrder chunks = front ++ back ∧
      (∀ other ∈ front, other.time < chunk.time) ∧ ∀ other ∈ back, chunk.time ≤ other.time := by
  have htrans : ∀ a b c : Chunk, decide (a.time ≤ b.time) = true → decide (b.time ≤ c.time) = true →
      decide (a.time ≤ c.time) = true := by
    intro a b c
    simp only [decide_eq_true_eq]
    exact le_trans
  have htotal : ∀ a b : Chunk, (decide (a.time ≤ b.time) || decide (b.time ≤ a.time)) = true := by
    intro a b
    simp only [Bool.or_eq_true, decide_eq_true_eq]
    exact le_total _ _
  obtain ⟨front, back, hall, hrest, hfront⟩ := List.mergeSort_cons htrans htotal chunk chunks
  refine ⟨front, back, hall, hrest, fun other hother => ?_, fun other hother => ?_⟩
  · simpa using hfront other hother
  · have hsorted := List.pairwise_mergeSort htrans htotal (chunk :: chunks)
    rw [hall] at hsorted
    simpa using (List.pairwise_cons.1 (List.pairwise_append.1 hsorted).2.1).1 other hother

/-- There is one way to part what arrives before a moment from what does not. -/
theorem eq_of_append_eq_append {front front' back back' : List Chunk} {time : Nat}
    (hfront : ∀ chunk ∈ front, chunk.time < time) (hback : ∀ chunk ∈ back, time ≤ chunk.time)
    (hfront' : ∀ chunk ∈ front', chunk.time < time) (hback' : ∀ chunk ∈ back', time ≤ chunk.time)
    (h : front ++ back = front' ++ back') : front = front' ∧ back = back' := by
  have hfilter (front back : List Chunk) (hfront : ∀ chunk ∈ front, chunk.time < time)
      (hback : ∀ chunk ∈ back, time ≤ chunk.time) :
      (front ++ back).filter (·.time < time) = front := by
    rw [List.filter_append, List.filter_eq_self.2 (by simpa using hfront),
      List.filter_eq_nil_iff.2 (by simpa using hback), List.append_nil]
  have heq : front = front' := by
    rw [← hfilter front back hfront hback, h, hfilter front' back' hfront' hback']
  subst heq
  exact ⟨rfl, List.append_cancel_left h⟩

/-- Whichever pieces are chosen, they are in the order in which they would be alone. -/
theorem filter_inOrder (p : Chunk → Bool) (chunks : List Chunk) :
    (inOrder chunks).filter p = inOrder (chunks.filter p) := by
  induction chunks with
  | nil => simp [inOrder]
  | cons chunk chunks ih =>
      obtain ⟨front, back, hall, hrest, hfront, hback⟩ := exists_inOrder_cons chunk chunks
      rw [hrest, List.filter_append] at ih
      rw [hall, List.filter_append]
      cases hp : p chunk with
      | false =>
          rw [List.filter_cons_of_neg (by simp [hp]), List.filter_cons_of_neg (by simp [hp]), ih]
      | true =>
          obtain ⟨front', back', hall', hrest', hfront', hback'⟩ :=
            exists_inOrder_cons chunk (chunks.filter p)
          obtain ⟨hf, hb⟩ := eq_of_append_eq_append
            (fun other hother => hfront other (List.mem_of_mem_filter hother))
            (fun other hother => hback other (List.mem_of_mem_filter hother)) hfront' hback'
            (ih.trans hrest')
          rw [List.filter_cons_of_pos hp, List.filter_cons_of_pos hp, hall', hf, hb]

/-- The pieces of a child in order of arrival join to what it writes. -/
theorem joined_inOrder (script : Script) (stream : Stream) :
    joined (inOrder script.chunks) stream = script.bytesOn stream := by
  rw [joined, filter_inOrder]
  rfl

theorem bytesOn_of_pairwise {script : Script}
    (h : script.chunks.Pairwise fun a b => a.time ≤ b.time) (stream : Stream) :
    script.bytesOn stream = joined script.chunks stream := by
  rw [← joined_inOrder, inOrder, List.mergeSort_of_pairwise (by simpa using h)]

/-! ### What is captured -/

section
variable {limits : Limits} {env : Environment} {argv : Argv} {script script' : Script} {time : Nat}

/-- The two children end alike, and write the same on either stream. -/
structure Alike (script script' : Script) : Prop where
  closes : script.closes = script'.closes
  exits : script.exits = script'.exits
  exitCode : script.exitCode = script'.exitCode
  bytesOn (stream : Stream) : script.bytesOn stream = script'.bytesOn stream

/-- How many bytes a child writes, on both streams together. -/
def Script.size (script : Script) : Nat :=
  (script.bytesOn .out).length + (script.bytesOn .err).length

/-- What a run comes to whose child is done at `time`, by what it has written in all. -/
def captured (limits : Limits) (script : Script) (time : Nat) : Conclusion :=
  if 0 < script.size ∧ limits.maxOutputBytes < script.size then .failed .outputLimit
  else .finished ⟨script.textOn .out, script.textOn .err,
    script.exitCode.getD unknownExitCode, time⟩

/-- What is promised of the output of a child that is done at `time`, before its time is up. -/
structure IsCaptured (limits : Limits) (script : Script) (time : Nat) (conclusion : Conclusion) :
    Prop where
  /-- The run fails if bytes are written, and on both streams together more than it may. -/
  outputLimit : conclusion = .failed .outputLimit ↔
    0 < script.size ∧ limits.maxOutputBytes < script.size
  /-- Otherwise it succeeds, and reports the text of either stream. -/
  finished : ¬ (0 < script.size ∧ limits.maxOutputBytes < script.size) →
    conclusion = .finished ⟨script.textOn .out, script.textOn .err,
      script.exitCode.getD unknownExitCode, time⟩
  /-- What a child writes on a stream is joined from its pieces there, in order of arrival. -/
  arrivals : ∀ stream, joined (inOrder script.chunks) stream = script.bytesOn stream
  /-- Two readers with one budget come to the same, with these pieces and with any others that join
  to the same bytes. -/
  pieces : ∀ chunks, (∀ stream, joined chunks stream = script.bytesOn stream) →
    collected limits script.exitCode time chunks = conclusion
  /-- The text of a stream is the one that the joined bytes hold. -/
  text : ∀ stream text, Text.Utf8.Reads (script.bytesOn stream) text ↔
    script.textOn stream = String.ofList text
  /-- Broken bytes between two texts leave both of them alone. -/
  damage : ∀ stream (front : String) bytes (back : String),
    script.bytesOn stream =
      Text.Utf8.encode front.toList ++ bytes ++ Text.Utf8.encode back.toList →
    script.textOn stream = front ++ String.ofList (Text.Utf8.decode bytes) ++ back

theorem written_le_size (script : Script) (time : Nat) : script.written time ≤ script.size := by
  rw [written_eq_sum, Script.size, length_bytesOn_add]
  apply List.sum_le_sum
  intro chunk _
  split
  · exact le_refl _
  · exact Nat.zero_le _

/-- A child that is done in time writes too much in time if it does so in all. -/
theorem isFlooded_iff (horderly : script.IsOrderly) (hdone : script.IsDoneAt time)
    (htime : limits.timeout.Exceeds (seconds time)) :
    IsFlooded limits script ↔ 0 < script.size ∧ limits.maxOutputBytes < script.size := by
  have hall : script.written time = script.size := written_of_isDoneAt horderly hdone
  constructor
  · rintro ⟨first, ⟨⟨hpos, hover⟩, -⟩, -⟩
    have hle := written_le_size script first
    omega
  · rw [← hall]
    rintro ⟨hpos, hover⟩
    obtain ⟨first, hle, hfloods⟩ := exists_floods hpos hover
    exact ⟨first, hfloods, htime.mono (seconds_le_seconds.2 hle)⟩

theorem conclusion_eq (hstart : script.start = .started) (horderly : script.IsOrderly)
    (hdone : script.IsDoneAt time) (htime : limits.timeout.Exceeds (seconds time)) :
    (run limits env argv script).conclusion = captured limits script time := by
  have hflooded := isFlooded_iff horderly hdone htime
  by_cases hover : 0 < script.size ∧ limits.maxOutputBytes < script.size
  · obtain ⟨first, hfloods, hfirst⟩ := hflooded.2 hover
    rw [captured, if_pos hover,
      (run_eq limits env argv script (ending_of_floods hstart hfloods hfirst)).1, conclusion]
  · have hquiet := mt hflooded.1 hover
    rw [captured, if_neg hover,
      (run_eq limits env argv script (ending_of_isDoneAt hstart hquiet hdone htime)).1, conclusion]

theorem collected_of_joined {chunks : List Chunk}
    (hjoined : ∀ stream, joined chunks stream = script.bytesOn stream) :
    collected limits script.exitCode time chunks = captured limits script time := by
  have hsize : size chunks = script.size := by
    rw [← length_joined_add, hjoined, hjoined, Script.size]
  rw [collected_eq, hsize, hjoined, hjoined]
  rfl

theorem isCaptured (hstart : script.start = .started) (horderly : script.IsOrderly)
    (hdone : script.IsDoneAt time) (htime : limits.timeout.Exceeds (seconds time)) :
    IsCaptured limits script time (run limits env argv script).conclusion where
  outputLimit := by
    rw [conclusion_eq hstart horderly hdone htime, captured]
    split
    · next hover => exact iff_of_true rfl hover
    · next hover => exact iff_of_false nofun hover
  finished hover := by
    rw [conclusion_eq hstart horderly hdone htime, captured, if_neg hover]
  arrivals := joined_inOrder script
  pieces chunks hjoined := by
    rw [collected_of_joined hjoined, conclusion_eq hstart horderly hdone htime]
  text stream text := by
    rw [← Text.Utf8.decode_eq_iff, Script.textOn, String.ofList_inj]
  damage stream front bytes back hbytes := by
    rw [Script.textOn, hbytes, Text.Utf8.decode_encode_append_encode, String.ofList_append,
      String.ofList_append, String.ofList_toList, String.ofList_toList]

namespace Alike

theorem captured_eq (halike : Alike script script') :
    captured limits script time = captured limits script' time := by
  have hsize : script.size = script'.size := by
    rw [Script.size, Script.size, halike.bytesOn, halike.bytesOn]
  have htext (stream : Stream) : script.textOn stream = script'.textOn stream := by
    rw [Script.textOn, Script.textOn, halike.bytesOn]
  rw [captured, captured, hsize, htext, htext, halike.exitCode]

theorem isDoneAt (halike : Alike script script') (hdone : script.IsDoneAt time) :
    script'.IsDoneAt time := by
  obtain ⟨closes, exits, hcloses, hexits, htime⟩ := hdone
  exact ⟨closes, exits, halike.closes ▸ hcloses, halike.exits ▸ hexits, htime⟩

end Alike

/-- What a run captures is as promised, and children that write the same end their runs alike. -/
theorem run_isCaptured (limits : Limits) (env : Environment) (argv : Argv)
    (script script' : Script) (time : Nat) (hstart : script.start = .started)
    (hstart' : script'.start = .started) (horderly : script.IsOrderly)
    (horderly' : script'.IsOrderly) (halike : Alike script script')
    (hdone : script.IsDoneAt time) (htime : limits.timeout.Exceeds (seconds time)) :
    (run limits env argv script).conclusion = (run limits env argv script').conclusion ∧
      IsCaptured limits script time (run limits env argv script).conclusion := by
  refine ⟨?_, isCaptured hstart horderly hdone htime⟩
  rw [conclusion_eq hstart horderly hdone htime,
    conclusion_eq hstart' horderly' (halike.isDoneAt hdone) htime, halike.captured_eq]

/-- A child that writes a character in two pieces, and bytes that no text has. -/
def slow : Script where
  chunks := [⟨10, .out, [0x61, 0xE2]⟩, ⟨20, .err, [0xF0, 0x9F]⟩,
    ⟨30, .out, [0x82, 0xAC, 0xFF, 0x62]⟩]
  closes := some 40
  exits := some 50

/-- One that writes the same in other pieces. -/
def fast : Script where
  chunks := [⟨0, .err, [0xF0]⟩, ⟨5, .err, [0x9F]⟩,
    ⟨5, .out, [0x61, 0xE2, 0x82, 0xAC, 0xFF, 0x62]⟩]
  closes := some 40
  exits := some 50

theorem bytesOn_slow (stream : Stream) : slow.bytesOn stream = joined slow.chunks stream :=
  bytesOn_of_pairwise (by decide) stream

theorem alike_slow_fast : Alike slow fast where
  closes := rfl
  exits := rfl
  exitCode := rfl
  bytesOn stream := by
    rw [bytesOn_slow, bytesOn_of_pairwise (by decide)]
    cases stream with
    | out => rfl
    | err => rfl

theorem run_isCaptured_slow :
    slow.IsOrderly ∧ fast.IsOrderly ∧ Alike slow fast ∧ slow.IsDoneAt 50 ∧
      (run {} [] ⟨"curl", ["http://a"]⟩ slow).conclusion =
        (run {} [] ⟨"curl", ["http://a"]⟩ fast).conclusion ∧
      (run {} [] ⟨"curl", ["http://a"]⟩ slow).conclusion =
        .finished ⟨"a€\uFFFDb", "\uFFFD", 0, 50⟩ := by
  have hslow : slow.IsOrderly := by
    rintro closes ⟨⟩
    decide
  have hfast : fast.IsOrderly := by
    rintro closes ⟨⟩
    decide
  have hdone : slow.IsDoneAt 50 := ⟨40, 50, rfl, rfl, rfl⟩
  have htime : ({} : Limits).timeout.Exceeds (seconds 50) := .inr (by decide +kernel)
  obtain ⟨hsame, hcaptured⟩ := run_isCaptured {} [] ⟨"curl", ["http://a"]⟩ slow fast 50 rfl rfl
    hslow hfast alike_slow_fast hdone htime
  have hout : slow.textOn .out = "a€\uFFFDb" :=
    hcaptured.damage .out "a€" [0xFF] "b" ((bytesOn_slow .out).trans (by decide))
  have herr : slow.textOn .err = "\uFFFD" :=
    hcaptured.damage .err "" [0xF0, 0x9F] "" ((bytesOn_slow .err).trans (by decide))
  have hsize : slow.size = 8 := by
    rw [Script.size, bytesOn_slow, bytesOn_slow]
    rfl
  have hfinished := hcaptured.finished (by rw [hsize]; decide)
  rw [hout, herr] at hfinished
  exact ⟨hslow, hfast, alike_slow_fast, hdone, hsame, hfinished⟩

/-- Where not even no bytes are allowed, a child that writes none is still reported on. -/
theorem not_outputLimit_noBytes :
    Script.IsOrderly { closes := some 100, exits := some 100 } ∧
      Script.IsDoneAt { closes := some 100, exits := some 100 } 100 ∧
      ({ maxOutputBytes := -5 } : Limits).timeout.Exceeds (seconds 100) ∧
      ¬ ((run { maxOutputBytes := -5 } [("PATH", "/usr/bin:/bin")] ⟨"curl", ["http://a.test"]⟩
          { closes := some 100, exits := some 100 }).conclusion = .failed .outputLimit ↔
        (-5 : Int) < Script.size { closes := some 100, exits := some 100 }) := by
  refine ⟨?_, ⟨100, 100, rfl, rfl, rfl⟩, .inr (by decide +kernel), by decide +kernel⟩
  rintro closes ⟨⟩
  decide

end

end CurlWarden.Child
