import Mathlib.Data.List.Nodup
import CurlWarden.Proofs.Diagnostics.Metadata
import CurlWarden.Session.Basic

/-!
# What an envelope holds

The request tool returns a report in an envelope: an object with the success of the probe and, as
another object, the report itself. `Encloses` says what this comes to without saying in which order
the members stand, since the body comes first or last: the body is always there, also where it is
null; every field that is set stands under its own key, and so does the diagnostic stream; there is
nothing else, and no key twice.

That is enough to get the report back (`Encloses.unique`). An envelope can be printed exactly if the
body holds no half of a surrogate pair (`isWhole_envelope`), and what is printed can be read if the
report holds nothing that reading would change (`IsPlain`).
-/

namespace CurlWarden

open Diagnostics (Datum Field Metadata)
open Json (CodePoints Value)

theorem Diagnostics.Datum.toJson_injective {datum datum' : Datum}
    (h : datum.toJson = datum'.toJson) : datum = datum' := by
  cases datum <;> cases datum' <;> simp_all [toJson, CodePoints.ofString_inj]

theorem Diagnostics.Datum.isWhole_toJson (datum : Datum) : datum.toJson.isWhole := by
  cases datum with
  | text s => exact CodePoints.isWhole_ofString s
  | _ => rfl

namespace Report

/-- The members of an object that holds the report. -/
structure Lists (report : Report) (members : List (CodePoints × Value)) : Prop where
  keys : (members.map (·.1)).Nodup
  data : (↑"data", report.data) ∈ members
  field (f : Field) (v : Value) : (↑f.key, v) ∈ members ↔
    ∃ datum, report.metadata.get? f = some datum ∧ v = datum.toJson
  stream (v : Value) : (↑"rawStderr", v) ∈ members ↔
    ∃ s : String, report.rawStream = some s ∧ v = .text s
  known : ∀ m ∈ members, m.1 = "data" ∨ m.1 = "rawStderr" ∨ ∃ f : Field, m.1 = f.key

/-- The value is the report in its envelope. -/
def Encloses (v : Value) (report : Report) : Prop :=
  ∃ members, v = .object [("success", .bool report.isOk), ("apiResponse", .object members)] ∧
    report.Lists members

/-- The body nests at most 100 deep, and neither it nor the metadata hold numbers that are not whole
or too long to be read. -/
structure IsPlain (report : Report) : Prop where
  data : report.data.IsPlain 100
  metadata : ∀ f datum, report.metadata.get? f = some datum → datum.IsPlain

/-! ### The keys of a report -/

theorem keys_nodup : ("data" :: "rawStderr" :: Field.all.map Field.key).Nodup := by decide +kernel

theorem key_ne_data (f : Field) : CodePoints.ofString f.key ≠ "data" := by
  rw [Ne, CodePoints.ofString_inj]
  intro h
  apply (List.nodup_cons.1 keys_nodup).1
  rw [← h]
  exact .tail _ (List.mem_map_of_mem (Field.mem_all f))

theorem key_ne_rawStderr (f : Field) : CodePoints.ofString f.key ≠ "rawStderr" := by
  rw [Ne, CodePoints.ofString_inj]
  intro h
  apply (List.nodup_cons.1 (List.nodup_cons.1 keys_nodup).2).1
  rw [← h]
  exact List.mem_map_of_mem (Field.mem_all f)

theorem rawStderr_ne_data : CodePoints.ofString "rawStderr" ≠ "data" := by decide

theorem key_injective {f g : Field} (h : CodePoints.ofString f.key = g.key) : f = g :=
  List.inj_on_of_nodup_map (List.nodup_cons.1 (List.nodup_cons.1 keys_nodup).2).2
    (Field.mem_all f) (Field.mem_all g) (CodePoints.ofString_inj.1 h)

theorem mem_entries {m : Metadata} {f : Field} {datum : Datum} :
    (f, datum) ∈ m.entries ↔ m.get? f = some datum := by
  rw [Metadata.entries, List.mem_filterMap]
  constructor
  · rintro ⟨g, -, h⟩
    obtain ⟨d, hd, heq⟩ := Option.map_eq_some_iff.1 h
    cases heq
    exact hd
  · intro h
    exact ⟨f, Field.mem_all f, by rw [h, Option.map_some]⟩

theorem filterMap_get?_sublist (m : Metadata) (fields : List Field) :
    ((fields.filterMap fun f => (m.get? f).map (f, ·)).map (·.1)).Sublist fields := by
  induction fields with
  | nil => exact .slnil
  | cons f fields ih =>
      rw [List.filterMap_cons]
      cases m.get? f with
      | none => exact ih.cons f
      | some datum => exact ih.cons_cons f

/-- The fields of a report stand in the order of all fields. -/
theorem entries_sublist (m : Metadata) : (m.entries.map (·.1)).Sublist Field.all :=
  filterMap_get?_sublist m Field.all

/-! ### The members of a report -/

section
variable {report : Report}

theorem mem_extras {key : CodePoints} {v : Value} : (key, v) ∈ report.extras ↔
    (∃ f datum, report.metadata.get? f = some datum ∧ key = f.key ∧ v = datum.toJson) ∨
      ∃ s : String, report.rawStream = some s ∧ key = "rawStderr" ∧ v = .text s := by
  rw [extras, List.mem_append, List.mem_map, Option.mem_toList, Option.map_eq_some_iff]
  constructor
  · intro h
    rcases h with ⟨⟨f, datum⟩, hmem, heq⟩ | ⟨s, hs, heq⟩
    · cases heq
      exact .inl ⟨f, datum, mem_entries.1 hmem, rfl, rfl⟩
    · cases heq
      exact .inr ⟨s, hs, rfl, rfl⟩
  · intro h
    rcases h with ⟨f, datum, hget, rfl, rfl⟩ | ⟨s, hs, rfl, rfl⟩
    · exact .inl ⟨(f, datum), mem_entries.2 hget, rfl⟩
    · exact .inr ⟨s, hs, rfl⟩

theorem extras_keys_nodup : (report.extras.map (·.1)).Nodup := by
  have hfields : ((report.metadata.entries.map (·.1)).map fun f =>
      CodePoints.ofString f.key).Nodup := by
    have hall : (Field.all.map fun f => CodePoints.ofString f.key).Nodup := by decide +kernel
    exact hall.sublist ((entries_sublist _).map _)
  rw [List.map_map] at hfields
  rw [extras, List.map_append, List.map_map]
  cases report.rawStream with
  | none =>
      rw [Option.map_none, Option.toList_none, List.map_nil, List.append_nil]
      exact hfields
  | some s =>
      rw [List.nodup_append]
      refine ⟨hfields, List.nodup_singleton _, ?_⟩
      intro key hkey other hother heq
      obtain ⟨⟨f, datum⟩, -, rfl⟩ := List.mem_map.1 hkey
      rw [List.mem_singleton.1 hother] at heq
      exact key_ne_rawStderr f heq

/-- First or last, the body is one of the members, and the others are the same. -/
theorem members_perm : report.members.Perm ((↑"data", report.data) :: report.extras) := by
  unfold members
  split
  · next h =>
    rw [h]
    exact List.perm_append_singleton _ _
  · exact .refl _

theorem data_not_mem_extras : ↑"data" ∉ report.extras.map (·.1) := by
  intro h
  obtain ⟨⟨key, v⟩, hmem, rfl⟩ := List.mem_map.1 h
  rcases mem_extras.1 hmem with ⟨f, -, -, hkey, -⟩ | ⟨s, -, hkey, -⟩
  · exact key_ne_data f hkey.symm
  · exact rawStderr_ne_data hkey.symm

theorem lists_members (report : Report) : report.Lists report.members where
  keys := by
    rw [(members_perm.map (·.1)).nodup_iff, List.map_cons, List.nodup_cons]
    exact ⟨data_not_mem_extras, extras_keys_nodup⟩
  data := members_perm.mem_iff.2 (.head _)
  field f v := by
    rw [members_perm.mem_iff, List.mem_cons, mem_extras]
    constructor
    · intro h
      rcases h with heq | ⟨g, datum, hget, hkey, rfl⟩ | ⟨s, -, hkey, -⟩
      · exact absurd (congrArg Prod.fst heq) (key_ne_data f)
      · rw [key_injective hkey]
        exact ⟨datum, hget, rfl⟩
      · exact absurd hkey (key_ne_rawStderr f)
    · rintro ⟨datum, hget, heq⟩
      exact .inr (.inl ⟨f, datum, hget, rfl, heq⟩)
  stream v := by
    rw [members_perm.mem_iff, List.mem_cons, mem_extras]
    constructor
    · intro h
      rcases h with heq | ⟨f, -, -, hkey, -⟩ | ⟨s, hs, -, rfl⟩
      · exact absurd (congrArg Prod.fst heq) rawStderr_ne_data
      · exact absurd hkey.symm (key_ne_rawStderr f)
      · exact ⟨s, hs, rfl⟩
    · rintro ⟨s, hs, heq⟩
      exact .inr (.inr ⟨s, hs, rfl, heq⟩)
  known := by
    rintro ⟨key, v⟩ hmem
    rcases List.mem_cons.1 (members_perm.mem_iff.1 hmem) with heq | hextra
    · exact .inl (congrArg Prod.fst heq)
    · rcases mem_extras.1 hextra with ⟨f, -, -, hkey, -⟩ | ⟨s, -, hkey, -⟩
      · exact .inr (.inr ⟨f, hkey⟩)
      · exact .inr (.inl hkey)

end

/-! ### Back to the report -/

/-- A key has one value. -/
theorem Lists.eq_of_mem {report : Report} {members : List (CodePoints × Value)}
    (h : report.Lists members) {key : CodePoints} {v v' : Value} (hv : (key, v) ∈ members)
    (hv' : (key, v') ∈ members) : v = v' :=
  congrArg Prod.snd (List.inj_on_of_nodup_map h.keys hv hv' rfl)

theorem Lists.unique {report report' : Report} {members : List (CodePoints × Value)}
    (h : report.Lists members) (h' : report'.Lists members) : report = report' := by
  have hdata : report.data = report'.data := h.eq_of_mem h.data h'.data
  have hmetadata : report.metadata = report'.metadata := by
    apply Metadata.ext
    intro f
    apply Option.ext
    intro datum
    have hiff := (h.field f datum.toJson).symm.trans (h'.field f datum.toJson)
    have hsome : ∀ found : Option Datum,
        (∃ d, found = some d ∧ datum.toJson = d.toJson) ↔ found = some datum := by
      intro found
      constructor
      · rintro ⟨d, hd, heq⟩
        rw [hd, Datum.toJson_injective heq]
      · intro hd
        exact ⟨datum, hd, rfl⟩
    rwa [hsome, hsome] at hiff
  have hstream : report.rawStream = report'.rawStream := by
    apply Option.ext
    intro s
    have hiff := (h.stream (.text s)).symm.trans (h'.stream (.text s))
    simpa [CodePoints.ofString_inj] using hiff
  obtain ⟨data, metadata, rawStream⟩ := report
  cases hdata
  cases hmetadata
  cases hstream
  rfl

/-- There is one report at most in an envelope. -/
theorem Encloses.unique {v : Value} {report report' : Report} (h : Encloses v report)
    (h' : Encloses v report') : report = report' := by
  obtain ⟨members, rfl, hlists⟩ := h
  obtain ⟨members', heq, hlists'⟩ := h'
  have hmembers : members = members' := by
    simp only [Value.object.injEq, List.cons.injEq, Prod.mk.injEq, true_and, and_true] at heq
    exact heq.2
  subst hmembers
  exact hlists.unique hlists'

/-! ### Printed envelopes -/

section
variable {report : Report}

theorem isWhole_key {m : CodePoints × Value} (h : m ∈ report.members) : m.1.isWhole := by
  rcases report.lists_members.known m h with hkey | hkey | ⟨f, hkey⟩
  all_goals
    rw [hkey]
    exact CodePoints.isWhole_ofString _

/-- Besides the body, there are no halves of surrogate pairs in a report. -/
theorem isWhole_of_mem_extras {key : CodePoints} {v : Value} (h : (key, v) ∈ report.extras) :
    v.isWhole := by
  rcases mem_extras.1 h with ⟨f, datum, -, -, rfl⟩ | ⟨s, -, -, rfl⟩
  · exact datum.isWhole_toJson
  · exact CodePoints.isWhole_ofString s

theorem isWhole_toJson : report.toJson.isWhole ↔ report.data.isWhole := by
  rw [toJson, Value.isWhole, Json.areWholeMembers_iff]
  constructor
  · intro h
    exact (h _ report.lists_members.data).2
  · rintro h ⟨key, v⟩ hmem
    refine ⟨isWhole_key hmem, ?_⟩
    rcases List.mem_cons.1 (members_perm.mem_iff.1 hmem) with heq | hextra
    · rw [congrArg Prod.snd heq]
      exact h
    · exact isWhole_of_mem_extras hextra

theorem IsPlain.envelope (h : report.IsPlain) : report.envelope.IsPlain Json.maxDepth := by
  have hmembers : ∀ m ∈ report.members, m.1.isWhole ∧ m.2.IsPlain 100 := by
    rintro ⟨key, v⟩ hmem
    refine ⟨isWhole_key hmem, ?_⟩
    rcases List.mem_cons.1 (members_perm.mem_iff.1 hmem) with heq | hextra
    · rw [congrArg Prod.snd heq]
      exact h.data
    · rcases mem_extras.1 hextra with ⟨f, datum, hget, -, rfl⟩ | ⟨s, -, -, rfl⟩
      · exact (h.metadata f datum hget).mono (Nat.zero_le _)
      · exact CodePoints.isWhole_ofString s
  have hplain : report.envelope.IsPlain 102 := by
    have hkeys : [CodePoints.ofString "success", "apiResponse"].Nodup := by decide
    refine ⟨hkeys, ?_⟩
    intro m hm
    rcases List.mem_cons.1 hm with rfl | hm
    · exact ⟨CodePoints.isWhole_ofString _, trivial⟩
    · rw [List.mem_singleton.1 hm]
      exact ⟨CodePoints.isWhole_ofString _, report.lists_members.keys, hmembers⟩
  exact hplain.mono (by decide)

end

end Report

end CurlWarden
