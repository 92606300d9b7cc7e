-- SUMMARY: Values of cells: equality, membership, grouping and order.
import Provenance.Truth
import Provenance.Number.Decimal
import Provenance.Number.Literal

/-!
# Cell values

A cell holds nothing, a number or a text. Equality with a null is unknown, and so is membership of
a null in a list that is not empty; grouping treats nulls as one value. A column of ids stores each
number in one form, so two of its cells are equal exactly when they are the same value. Where numbers
may come in several forms, `canonical` brings equal ones to the same.
-/
namespace Provenance

inductive Value where
  | null
  | num (n : Number)
  | text (s : String)
  deriving DecidableEq

instance : Inhabited Value := ⟨.null⟩

namespace Value

/-- The text of a number: decimal digits, or the fewest digits of a double. -/
def numberText : Number → String
  | .int n => toString n
  | .real x => Decimal.shortest x

/-- The value as text in results, unless it is null. -/
def text? : Value → Option String
  | null => none
  | num n => some (numberText n)
  | text s => some s

/-- The cast to text within a database. It leaves a null as it is and rounds doubles. -/
def asText : Value → Value
  | null => null
  | num (.int n) => text (toString n)
  | num (.real x) => text (Decimal.brief x)
  | text s => text s

/-- The text of an id in results; a null has a word of its own. -/
def label (v : Value) : String := v.text?.getD "None"

/-- A double as a value. What is no number cannot be stored and is null. -/
def ofFloat (x : Float) : Value := if x.isNaN then null else num (.real x)

/-! ## Comparison -/

/-- The form that equal numbers share. -/
def canonical : Value → Value
  | num n => num n.canonical
  | v => v

/-- Equality, `a = b`. -/
def equals (a b : Value) : Truth :=
  if a = null ∨ b = null then .unknown else .ofBool (a = b)

/-- Equality of values whose numbers may come in different forms. -/
def sameAs (a b : Value) : Truth := a.canonical.equals b.canonical

/-- Membership, `v IN s`. -/
def isIn (v : Value) (s : List Value) : Truth :=
  if s.isEmpty then .no
  else if v = null then .unknown
  else if v ∈ s then .yes
  else if null ∈ s then .unknown
  else .no

/-- The condition `v IN s` selects. -/
def memberOf (v : Value) (s : List Value) : Bool := (v.isIn s).selects

/-- The condition `v NOT IN s` selects. -/
def absentFrom (v : Value) (s : List Value) : Bool := (v.isIn s).not.selects

/-- Nulls come first, then numbers by exact value, then texts by code points. -/
def le : Value → Value → Bool
  | null, _ => true
  | _, null => false
  | num a, num b => a.le b
  | num _, text _ => true
  | text _, num _ => false
  | text a, text b => a ≤ b

/-- Strictly before in the same order, `a < b`, for values that are not null. -/
def lt (a b : Value) : Bool := !b.le a

/-! ## Groups -/

/-- One value of each group, in ascending order; the nulls are one group. -/
def groups (vs : List Value) : List Value := vs.eraseDups.mergeSort le

/-- The first of each group of equal values, in ascending order, where numbers may come in different
forms. -/
def distinctGroups (vs : List Value) : List Value :=
  (vs.eraseDupsBy fun v w => decide (v.canonical = w.canonical)).mergeSort le

/-- The least value that is not null, or null if there is none. -/
def least (vs : List Value) : Value :=
  ((vs.filter (· ≠ null)).mergeSort le).headD null

/-! ## Membership -/

theorem memberOf_iff {v : Value} {s : List Value} : v.memberOf s = true ↔ v ≠ null ∧ v ∈ s := by
  unfold memberOf isIn
  cases s with
  | nil => simp [Truth.selects]
  | cons x s =>
    by_cases hv : v = null
    · simp [hv, Truth.selects]
    · by_cases hm : v ∈ x :: s
      · simp [hv, hm, Truth.selects]
      · by_cases hn : null ∈ x :: s <;> simp [hv, hm, hn, Truth.selects]

theorem absentFrom_iff {v : Value} {s : List Value} :
    v.absentFrom s = true ↔ s = [] ∨ (v ≠ null ∧ null ∉ s ∧ v ∉ s) := by
  unfold absentFrom isIn
  cases s with
  | nil => simp [Truth.not, Truth.selects]
  | cons x s =>
    by_cases hv : v = null
    · simp [hv, Truth.not, Truth.selects]
    · by_cases hm : v ∈ x :: s
      · simp [hv, hm, Truth.not, Truth.selects]
      · by_cases hn : null ∈ x :: s <;> simp [hv, hm, hn, Truth.not, Truth.selects]

theorem selects_equals_iff {v w : Value} : (v.equals w).selects = true ↔ v ≠ null ∧ v = w := by
  unfold equals
  by_cases hnull : v = null ∨ w = null
  · rw [if_pos hnull]
    constructor
    · intro h
      simp [Truth.selects] at h
    · intro h
      obtain ⟨hv, rfl⟩ := h
      simp [hv] at hnull
  · rw [if_neg hnull, Truth.selects_ofBool]
    simp_all

@[simp] theorem mem_groups {v : Value} {vs : List Value} : v ∈ groups vs ↔ v ∈ vs := by
  simp [groups]

theorem nodup_eraseDups {α : Type} [BEq α] [LawfulBEq α] (vs : List α) : vs.eraseDups.Nodup := by
  match vs with
  | [] => simp
  | v :: vs =>
    rw [List.eraseDups_cons, List.nodup_cons]
    exact ⟨by simp, nodup_eraseDups _⟩
termination_by vs.length
decreasing_by exact Nat.lt_succ_of_le (List.length_filter_le _ vs)

theorem nodup_groups (vs : List Value) : (groups vs).Nodup :=
  (List.mergeSort_perm _ _).nodup_iff.mpr (nodup_eraseDups vs)

end Value
end Provenance
