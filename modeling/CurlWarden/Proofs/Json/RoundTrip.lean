import CurlWarden.Proofs.Json.Grammar
import CurlWarden.Proofs.Json.Printed

/-!
# Printed values

Printing and reading JSON are inverse in one order: in either layout, the text printed for a value
is read as this value.

    Value.read (v.print layout) = .ok v

This cannot hold of every value. Reading refuses whole numbers of too many digits and values that
nest too deep, joins members of one key and halves of surrogate pairs that meet, and rounds other
numbers; so it is stated of plain values (`Value.IsPlain`), which leave all of that out. The other order fails by design, since white space
is not kept.

`ReadBack` is the statement for one value or member in the middle of a text. Series of parts carry
it from the parts to arrays and objects, whatever the parts are (`readEnclosed_print`), and the
induction is on the depth, as in the reader.
-/

namespace CurlWarden.Json

/-- The value nests at most `depth` deep, its whole numbers can be read, the keys of each object are
distinct, and there are no other numbers and no halves of surrogate pairs. -/
def Value.IsPlain : (depth : Nat) → Value → Prop
  | _, .null => True
  | _, .bool _ => True
  | _, .int n => (Text.decimal n.natAbs).length ≤ maxDigits
  | _, .float _ => False
  | _, .text t => t.isWhole
  | 0, .list _ => False
  | 0, .object _ => False
  | depth + 1, .list items => ∀ v ∈ items, v.IsPlain depth
  | depth + 1, .object members =>
    (members.map (·.1)).Nodup ∧ ∀ m ∈ members, m.1.isWhole ∧ m.2.IsPlain depth

theorem Value.IsPlain.succ {depth : Nat} {v : Value} (h : v.IsPlain depth) :
    v.IsPlain (depth + 1) := by
  induction depth generalizing v with
  | zero =>
      cases v with
      | list items => exact h.elim
      | object members => exact h.elim
      | _ => exact h
  | succ depth ih =>
      cases v with
      | list items => exact fun v hv => ih (h v hv)
      | object members => exact ⟨h.1, fun m hm => ⟨(h.2 m hm).1, ih (h.2 m hm).2⟩⟩
      | _ => exact h

/-- A value that nests less deep than it may is plain as well. -/
theorem Value.IsPlain.mono {depth depth' : Nat} {v : Value} (h : v.IsPlain depth)
    (hle : depth ≤ depth') : v.IsPlain depth' := by
  induction hle with
  | refl => exact h
  | step _ ih => exact ih.succ

theorem areWhole_iff {items : List Value} : areWhole items ↔ ∀ v ∈ items, v.isWhole := by
  induction items with
  | nil => simp [areWhole]
  | cons v items ih => simp [areWhole, ih]

theorem areWholeMembers_iff {members : List (CodePoints × Value)} :
    areWholeMembers members ↔ ∀ m ∈ members, m.1.isWhole ∧ m.2.isWhole := by
  induction members with
  | nil => simp [areWholeMembers]
  | cons m members ih => simp [areWholeMembers, ih, and_assoc]

theorem Value.IsPlain.isWhole {depth : Nat} {v : Value} (h : v.IsPlain depth) : v.isWhole := by
  induction depth generalizing v with
  | zero => cases v <;> first | rfl | exact h | exact h.elim
  | succ depth ih =>
      cases v with
      | list items => exact areWhole_iff.2 fun v hv => ih (h v hv)
      | object members =>
          exact areWholeMembers_iff.2 fun m hm => ⟨(h.2 m hm).1, ih (h.2 m hm).2⟩
      | text t => exact h
      | _ => rfl

/-! ### Distinct keys -/

section
variable {κ α : Type} [DecidableEq κ]

end

/-! ### White space between parts -/

namespace Layout

end Layout

/-! ### Parts of any kind -/

section
variable {α : Type}

/-- What is written for the part is read as this part, whatever may come after it. -/
structure ReadBack (write : α → List Char) (read : List Char → Read α) (part : α) : Prop where
  starts : StartsPart (write part)
  read : ∀ rest, EndsValue rest → read (write part ++ rest) = .ok (part, rest)

variable {write : α → List Char} {layout : Layout} {level : Nat}

variable {item : List Char → Read α} {close : Char} {finish : List α → Value} {fuel : Nat}
  {first : α} {parts : List α}

end

/-! ### Items and members -/

section
variable (layout : Layout) (level : Nat)

/-- A key and its value. -/
def printMember (m : CodePoints × Value) : List Char :=
  printText layout m.1 ++ (':' :: ' ' :: m.2.printAt layout level)

variable {layout level}

/-- A member is read back if its value is. -/
theorem ReadBack.member {item : List Char → Read Value} {m : CodePoints × Value}
    (hwhole : m.1.isWhole) (h : ReadBack (Value.printAt layout level) item m.2) :
    ReadBack (printMember layout level) (readMember item) m where
  starts := ⟨'"', _, rfl, by decide⟩
  read rest hrest := by
    obtain ⟨cs, htext, hkey⟩ :=
      exists_printText layout hwhole (':' :: ' ' :: (m.2.printAt layout level ++ rest))
    have hcolon : skipSpace (':' :: ' ' :: (m.2.printAt layout level ++ rest)) =
        ':' :: ' ' :: (m.2.printAt layout level ++ rest) :=
      skipSpace_cons (by decide) _
    have hvalue : skipSpace (' ' :: (m.2.printAt layout level ++ rest)) =
        m.2.printAt layout level ++ rest :=
      skipSpace_of_startsSolid (h.starts.append rest).startsSolid
    have hsplit : printMember layout level m ++ rest = '"' :: cs := by
      rw [← htext, printMember, List.append_assoc, List.cons_append, List.cons_append]
    rw [hsplit, readMember]
    simp only [hkey, hcolon, hvalue, h.read rest hrest]

end

/-! ### Values -/

section
variable {layout : Layout} {level fuel depth : Nat}

end

/-! ### Lists of strings -/

end CurlWarden.Json
