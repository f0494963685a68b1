import CurlWarden.Tool.Registry
import Mathlib.Data.List.Induction
import Mathlib.Data.List.Sort

/-!
# What a history of registrations leaves on offer

A registry forgets how it came about: a tool that is registered under a name already taken replaces
the one before it, in its place. Here its state is told from the history alone, for every history,
whatever names it repeats.

* `Offers` — what is on offer, said of the history: each name as it was registered last, in the
  order in which names were registered first. There is exactly one such list (`Offers.unique`).
* `Follows` — the invariant that ties the entries of a registry to the history: `Follows.register`
  is the step lemma, `Follows.registerAll` the run lemma.
* `registerAll_offers` — what a registry has, what it tells agents, and what it has told the log.
-/

namespace CurlWarden.Registry

variable {history past : List Tool} {registry : Registry} {tool other : Tool} {name a b : String}

/-! ### Histories -/

/-- The names that a history registers, one for each registration. -/
def names (history : List Tool) : List String := history.map (·.name)

/-- The history registers `tool`, and nothing else under its name after that. -/
def IsLatest (history : List Tool) (tool : Tool) : Prop :=
  ∃ before after, history = before ++ tool :: after ∧ tool.name ∉ names after

/-- The history registers the name `a` before it first registers `b`. -/
def ComesFirst (history : List Tool) (a b : String) : Prop :=
  (names history).idxOf a < (names history).idxOf b

/-- What a history leaves on offer. -/
structure Offers (history offer : List Tool) : Prop where
  /-- Of each name, the tool that was registered last is on offer, and no other. -/
  latest : ∀ tool, tool ∈ offer ↔ IsLatest history tool
  /-- The tools stand in the order in which their names were registered first. -/
  order : offer.Pairwise fun tool other => ComesFirst history tool.name other.name

theorem names_append_singleton : names (history ++ [tool]) = names history ++ [tool.name] :=
  List.map_append

theorem isLatest_append_singleton : IsLatest (history ++ [tool]) other ↔
    other = tool ∨ IsLatest history other ∧ other.name ≠ tool.name := by
  constructor
  · rintro ⟨before, after, hsplit, hafter⟩
    rcases List.eq_nil_or_concat after with rfl | ⟨after, last, rfl⟩
    · exact .inl (List.append_singleton_inj.1 hsplit).2.symm
    · rw [List.concat_eq_append, ← List.cons_append, ← List.append_assoc,
        List.append_singleton_inj] at hsplit
      obtain ⟨rfl, rfl⟩ := hsplit
      rw [List.concat_eq_append, names_append_singleton, List.mem_append, not_or,
        List.mem_singleton] at hafter
      exact .inr ⟨⟨before, after, rfl, hafter.1⟩, hafter.2⟩
  · rintro (rfl | ⟨⟨before, after, rfl, hafter⟩, hne⟩)
    · exact ⟨history, [], rfl, List.not_mem_nil⟩
    · refine ⟨before, after ++ [tool], by simp, ?_⟩
      rw [names_append_singleton, List.mem_append, not_or, List.mem_singleton]
      exact ⟨hafter, hne⟩

/-- Exactly the names that have been registered have a latest tool. -/
theorem exists_isLatest_iff :
    (∃ tool, IsLatest history tool ∧ tool.name = name) ↔ name ∈ names history := by
  constructor
  · rintro ⟨tool, ⟨before, after, rfl, -⟩, rfl⟩
    simp [names]
  · intro h
    induction history using List.reverseRecOn with
    | nil => cases h
    | append_singleton history tool ih =>
        by_cases hname : tool.name = name
        · exact ⟨tool, isLatest_append_singleton.2 (.inl rfl), hname⟩
        · rw [names_append_singleton, List.mem_append, List.mem_singleton] at h
          obtain ⟨latest, hlatest, rfl⟩ := ih (h.resolve_right (Ne.symm hname))
          exact ⟨latest, isLatest_append_singleton.2 (.inr ⟨hlatest, Ne.symm hname⟩), rfl⟩

theorem ComesFirst.append_singleton (h : ComesFirst history a b) (ha : a ∈ names history)
    (hb : b ∈ names history) : ComesFirst (history ++ [tool]) a b := by
  rwa [ComesFirst, names_append_singleton, List.idxOf_append_of_mem ha,
    List.idxOf_append_of_mem hb]

/-- A new name comes after all names before it. -/
theorem comesFirst_append_singleton (ha : a ∈ names history) (hnew : tool.name ∉ names history) :
    ComesFirst (history ++ [tool]) a tool.name := by
  rw [ComesFirst, names_append_singleton, List.idxOf_append_of_mem ha,
    List.idxOf_append_of_notMem hnew]
  exact Nat.lt_add_right _ (List.idxOf_lt_length_iff.2 ha)

theorem Offers.unique {offer offer' : List Tool} (h : Offers history offer)
    (h' : Offers history offer') : offer = offer' := by
  have : Std.Irrefl fun tool other : Tool => ComesFirst history tool.name other.name :=
    ⟨fun _ => Nat.lt_irrefl _⟩
  have : Std.Antisymm fun tool other : Tool => ComesFirst history tool.name other.name :=
    ⟨fun _ _ hfirst hsecond => absurd hfirst (Nat.lt_asymm hsecond)⟩
  exact h.order.eq_of_mem_iff h'.order fun tool => (h.latest tool).trans (h'.latest tool).symm

/-! ### Entries -/

/-- The entries of the registry are what the history leaves. -/
structure Follows (registry : Registry) (history : List Tool) : Prop where
  /-- Each name stands for the tool that was registered under it last. -/
  latest : ∀ name tool, (name, tool) ∈ registry.entries ↔ tool.name = name ∧ IsLatest history tool
  /-- The names stand in the order in which they were registered first. -/
  order : (registry.entries.map (·.1)).Pairwise (ComesFirst history)

theorem follows_new : Follows {} [] where
  latest name tool := by
    constructor
    · exact nofun
    · rintro ⟨-, before, after, hsplit, -⟩
      simp at hsplit
  order := .nil

theorem Follows.mem_keys_iff (h : registry.Follows history) :
    name ∈ registry.entries.map (·.1) ↔ name ∈ names history := by
  rw [← exists_isLatest_iff, List.mem_map]
  constructor
  · rintro ⟨⟨_, tool⟩, hentry, rfl⟩
    obtain ⟨hname, hlatest⟩ := (h.latest _ tool).1 hentry
    exact ⟨tool, hlatest, hname⟩
  · rintro ⟨tool, hlatest, rfl⟩
    exact ⟨(tool.name, tool), (h.latest _ tool).2 ⟨rfl, hlatest⟩, rfl⟩

theorem Follows.keys_nodup (h : registry.Follows history) :
    (registry.entries.map (·.1)).Nodup :=
  h.order.imp fun {a b} (hfirst : ComesFirst history a b) heq =>
    Nat.ne_of_lt hfirst (congrArg (names history).idxOf heq)

/-- One registration: a name that is there keeps its place and gets the tool, a new one comes last. -/
theorem Follows.register (h : registry.Follows history) (tool : Tool) :
    (registry.register tool).Follows (history ++ [tool]) where
  latest name other := by
    show (name, other) ∈ Json.assign registry.entries tool.name tool ↔ _
    rw [Json.mem_assign_iff h.keys_nodup, h.latest, isLatest_append_singleton]
    grind
  order := by
    show ((Json.assign registry.entries tool.name tool).map (·.1)).Pairwise _
    have hold : (registry.entries.map (·.1)).Pairwise (ComesFirst (history ++ [tool])) :=
      h.order.imp_of_mem fun ha hb hfirst =>
        hfirst.append_singleton (h.mem_keys_iff.1 ha) (h.mem_keys_iff.1 hb)
    by_cases hmem : tool.name ∈ registry.entries.map (·.1)
    · rwa [Json.map_fst_assign_of_mem hmem]
    · rw [Json.map_fst_assign_of_not_mem hmem]
      refine List.pairwise_append.2 ⟨hold, List.pairwise_singleton _ _, ?_⟩
      intro a ha b hb
      rw [List.mem_singleton.1 hb]
      exact comesFirst_append_singleton (h.mem_keys_iff.1 ha) (mt h.mem_keys_iff.2 hmem)

theorem Follows.registerAll (h : registry.Follows past) (history : List Tool) :
    (registry.registerAll history).1.Follows (past ++ history) := by
  induction history generalizing registry past with
  | nil => rwa [List.append_nil]
  | cons tool history ih =>
      rw [List.append_cons]
      exact ih (h.register tool)

theorem Follows.has_iff (h : registry.Follows history) :
    registry.has name = true ↔ name ∈ names history := by
  rw [← h.mem_keys_iff, has, List.any_eq_true, List.mem_map]
  simp only [beq_iff_eq]

theorem Follows.entries_eq_nil_iff (h : registry.Follows history) :
    registry.entries = [] ↔ history = [] := by
  rw [← List.map_eq_nil_iff (f := (·.1)), ← List.map_eq_nil_iff (f := Tool.name),
    List.eq_nil_iff_forall_not_mem, List.eq_nil_iff_forall_not_mem]
  exact forall_congr' fun name => not_congr h.mem_keys_iff

theorem Follows.offers (h : registry.Follows history) :
    Offers history (registry.entries.map (·.2)) := by
  have hname : ∀ entry ∈ registry.entries, entry.2.name = entry.1 := fun entry hentry =>
    ((h.latest entry.1 entry.2).1 hentry).1
  constructor
  · intro tool
    rw [List.mem_map]
    constructor
    · rintro ⟨⟨name, tool⟩, hentry, rfl⟩
      exact ((h.latest name tool).1 hentry).2
    · intro hlatest
      exact ⟨(tool.name, tool), (h.latest _ tool).2 ⟨rfl, hlatest⟩, rfl⟩
  · refine List.pairwise_map.2 ((List.pairwise_map.1 h.order).imp_of_mem ?_)
    intro entry entry' hmem hmem' hfirst
    rwa [hname entry hmem, hname entry' hmem']

/-! ### What agents are told -/

/-- The heading, and the description of each tool, with an empty line after each of them. -/
def listing (offer : List Tool) : String :=
  "\n".intercalate (["# AVAILABLE TOOLS", ""] ++ offer.flatMap fun tool => [tool.describe, ""])

theorem describe_eq (registry : Registry) : registry.describe =
    if registry.entries = [] then "No tools available."
    else listing (registry.entries.map (·.2)) := by
  unfold describe listing
  rw [List.flatMap_map]
  split
  · next h => rw [if_pos (List.isEmpty_iff.1 h)]
  · next h =>
    rw [if_neg fun hnil => h (List.isEmpty_iff.2 hnil)]
    rfl

/-- A listing starts with its heading. -/
theorem listing_ne (offer : List Tool) : listing offer ≠ "No tools available." := by
  intro h
  have hhead := congrArg (·.toList.head?) h
  rw [listing, List.cons_append, String.intercalate_cons_of_ne_nil (by simp)] at hhead
  simp at hhead

/-! ### What the log is told -/

/-- What the log is told of a registration that comes after others: a warning if its name is already
present, and the registration itself. -/
def told (earlier : List Tool) (tool : Tool) : List Log.Record :=
  (if tool.name ∈ names earlier then
    [⟨.warning, .registry, "Tool " ++ tool.name ++ " already registered, overwriting", none⟩]
  else []) ++ [⟨.debug, .registry, "Registered tool: " ++ tool.name, none⟩]

theorem Follows.records_eq (h : registry.Follows history) (tool : Tool) :
    registry.records tool = told history tool := by
  unfold records told
  congr 1
  exact if_congr h.has_iff rfl rfl

theorem Follows.records_registerAll (h : registry.Follows past) (history : List Tool) :
    (registry.registerAll history).2 = (history.zipIdx past.length).flatMap fun (tool, i) =>
      told ((past ++ history).take i) tool := by
  induction history generalizing registry past with
  | nil => rfl
  | cons tool history ih =>
      have hrest := ih (h.register tool)
      rw [List.length_append, List.length_singleton, ← List.append_cons] at hrest
      rw [List.zipIdx_cons, List.flatMap_cons, ← hrest]
      show registry.records tool ++ _ = told ((past ++ tool :: history).take past.length) tool ++ _
      rw [List.take_left, h.records_eq]

/-! ### The registry -/

/-- Whatever is registered, and however often: the registry has exactly the names that were used,
agents are told of what the history leaves on offer, or that there is nothing if nothing was
registered, and the log is warned of exactly those registrations whose name was already present. The
tools that come with the program are registered like any others. -/
theorem registerAll_offers (history : List Tool) :
    ∃ registry records offer, registerAll {} history = (registry, records) ∧
      (∀ name, registry.has name = true ↔ ∃ tool ∈ history, tool.name = name) ∧
      (∀ offer', Offers history offer' ↔ offer = offer') ∧
      registry.describe = (if history = [] then "No tools available." else listing offer) ∧
      (registry.describe = "No tools available." ↔ history = []) ∧
      records = history.zipIdx.flatMap fun (tool, i) => told (history.take i) tool := by
  have hfollows : (registerAll {} history).1.Follows history := follows_new.registerAll history
  have hdescribe : (registerAll {} history).1.describe =
      if history = [] then "No tools available."
      else listing ((registerAll {} history).1.entries.map (·.2)) := by
    rw [describe_eq]
    exact if_congr hfollows.entries_eq_nil_iff rfl rfl
  refine ⟨_, _, _, rfl, fun name => ?_, fun offer' => ?_, hdescribe, ?_, ?_⟩
  · rw [hfollows.has_iff, names, List.mem_map]
  · exact ⟨hfollows.offers.unique, fun h => h ▸ hfollows.offers⟩
  · rw [hdescribe, ite_eq_left_iff]
    exact ⟨fun h => by_contra fun hne => listing_ne _ (h hne), fun h hne => absurd h hne⟩
  · exact follows_new.records_registerAll history

-- The second registration keeps the place of the first, and is warned of.
example : registerAll {} (builtin ++ [⟨"b", "B", [], .low, []⟩] ++ builtin) =
    (⟨[("make_request", .request), ("b", ⟨"b", "B", [], .low, []⟩)]⟩,
      told [] .request ++ told [.request] ⟨"b", "B", [], .low, []⟩ ++
        told [.request] .request) := by
  rfl

end CurlWarden.Registry
