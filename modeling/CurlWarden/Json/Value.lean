import CurlWarden.Number.Binary64

/-!
# JSON values

Decoded JSON. Whole numbers keep every digit; other numbers are rounded to binary64, whose
infinities and not-a-number are admitted too. The members of an object stand in the order in which
their keys first appeared.

Escapes can write half of a surrogate pair without the other half. That is no character, and so a
text here is a list of code points and not a string.
-/

namespace CurlWarden.Json

/-- A character, or half of a surrogate pair that stands on its own. -/
inductive CodePoint where
  | char (c : Char)
  /-- The code unit `0xD800 + offset`. -/
  | half (offset : Fin 0x800)
  deriving DecidableEq, Repr

/-- A text as JSON can write it. -/
abbrev CodePoints := List CodePoint

def CodePoints.ofString (s : String) : CodePoints := s.toList.map .char

instance : Coe String CodePoints := ⟨.ofString⟩

inductive Value where
  | null
  | bool (b : Bool)
  | int (n : Int)
  | float (x : Binary64)
  | text (t : CodePoints)
  | list (items : List Value)
  | object (members : List (CodePoints × Value))
  deriving Repr, BEq, Inhabited

/-- A list of strings. -/
def Value.texts (strings : List String) : Value := .list (strings.map fun s => .text (.ofString s))

/-! ### Values that are made of characters -/

def CodePoint.isChar : CodePoint → Bool
  | .char _ => true
  | .half _ => false

/-- Are there no halves in the text? -/
def CodePoints.isWhole (t : CodePoints) : Bool := t.all (·.isChar)

theorem CodePoint.isChar_iff {p : CodePoint} : p.isChar ↔ ∃ c, p = .char c := by
  cases p <;> simp [isChar]

theorem CodePoints.isWhole_cons {p : CodePoint} {t : CodePoints} :
    isWhole (p :: t) ↔ p.isChar ∧ t.isWhole := by
  simp [isWhole]

theorem CodePoints.ofString_inj {s s' : String} : ofString s = ofString s' ↔ s = s' := by
  rw [ofString, ofString, List.map_inj_right fun _ _ => CodePoint.char.inj, String.toList_inj]

@[simp]
theorem CodePoints.isWhole_ofString (s : String) : isWhole (ofString s) := by
  simp [isWhole, ofString, CodePoint.isChar]

mutual

/-- Are there no halves in any of the texts and keys? -/
def Value.isWhole : Value → Bool
  | .null | .bool _ | .int _ | .float _ => true
  | .text t => CodePoints.isWhole t
  | .list vs => areWhole vs
  | .object ms => areWholeMembers ms

def areWhole : List Value → Bool
  | [] => true
  | v :: vs => v.isWhole && areWhole vs

def areWholeMembers : List (CodePoints × Value) → Bool
  | [] => true
  | (key, v) :: ms => CodePoints.isWhole key && v.isWhole && areWholeMembers ms

end

/-! ### Assignments -/

section
variable {κ α : Type} [DecidableEq κ]

/-- Gives `key` the value `v`: in place if the key is there already, else at the end. -/
def assign (members : List (κ × α)) (key : κ) (v : α) : List (κ × α) :=
  match members with
  | [] => [(key, v)]
  | (k, old) :: rest => if k = key then (k, v) :: rest else (k, old) :: assign rest key v

/-- The members that a list of assignments leaves, in order of first appearance. -/
def assignAll (given : List (κ × α)) : List (κ × α) :=
  given.foldl (fun members (key, v) => assign members key v) []

variable {members : List (κ × α)} {key : κ} {v : α}

theorem map_fst_assign_of_mem (h : key ∈ members.map (·.1)) :
    (assign members key v).map (·.1) = members.map (·.1) := by
  induction members with
  | nil => simp at h
  | cons m rest ih =>
    by_cases hk : m.1 = key
    · simp [assign, hk]
    · have : key ∈ rest.map (·.1) := by
        simp only [List.map_cons, List.mem_cons] at h
        exact h.resolve_left fun e => hk e.symm
      simp [assign, hk, ih this]

theorem assign_of_not_mem (v : α) (h : key ∉ members.map (·.1)) :
    assign members key v = members ++ [(key, v)] := by
  induction members with
  | nil => rfl
  | cons m members ih =>
      rw [List.map_cons, List.mem_cons, not_or] at h
      rw [assign, if_neg fun heq => h.1 heq.symm, ih h.2, List.cons_append]

theorem map_fst_assign_of_not_mem (h : key ∉ members.map (·.1)) :
    (assign members key v).map (·.1) = members.map (·.1) ++ [key] := by
  rw [assign_of_not_mem v h, List.map_append]
  rfl

/-- Where keys are distinct, an assignment changes the value of one key and nothing else. -/
theorem mem_assign_iff {m : κ × α} (h : (members.map (·.1)).Nodup) :
    m ∈ assign members key v ↔ m = (key, v) ∨ m ∈ members ∧ m.1 ≠ key := by
  induction members with
  | nil => simp [assign]
  | cons first rest ih =>
      obtain ⟨k, old⟩ := first
      obtain ⟨hk, hrest⟩ : k ∉ rest.map (·.1) ∧ (rest.map (·.1)).Nodup := List.nodup_cons.1 h
      by_cases heq : k = key
      · -- The key stands at the head, so it stands nowhere else.
        subst heq
        have hne : ∀ m ∈ rest, m.1 ≠ k := fun m hm hkey => hk (List.mem_map.2 ⟨m, hm, hkey⟩)
        rw [assign, if_pos rfl, List.mem_cons, List.mem_cons]
        grind
      · rw [assign, if_neg heq, List.mem_cons, ih hrest, List.mem_cons]
        grind

end

end CurlWarden.Json
