-- SUMMARY: Depths of joined conditions and their bounds.
import Provenance.Sql.Limit
import Mathlib.Data.List.Basic
import Mathlib.Order.MinMax

/-!
# Depths of conditions

Of operands that are joined one after the other, each is a level above all before it. So a condition gets
deeper by one with every operand, from the depth of the deepest on at the most.
-/
namespace Provenance.Sql

variable {ds ds' : List Nat} {c d : Nat}

/-! ## Joined operands -/

theorem le_foldl_depth (ds : List Nat) (d : Nat) :
    d + ds.length ≤ ds.foldl (fun depth d => max depth d + 1) d := by
  induction ds generalizing d with
  | nil => exact le_refl d
  | cons d' ds ih =>
    rw [List.foldl_cons, List.length_cons]
    have := ih (max d d' + 1)
    omega

theorem foldl_depth_le (h : ∀ d ∈ ds, d ≤ c) (d : Nat) :
    ds.foldl (fun depth d => max depth d + 1) d ≤ max d c + ds.length := by
  induction ds generalizing d with
  | nil => exact Nat.le_max_left d c
  | cons d' ds ih =>
    have hd' : d' ≤ c := h d' List.mem_cons_self
    have := ih (fun d hd => h d (List.mem_cons_of_mem d' hd)) (max d d' + 1)
    rw [List.foldl_cons, List.length_cons]
    omega

theorem foldl_depth_mono (h : ds.Sublist ds') {a b : Nat} (hab : a ≤ b) :
    ds.foldl (fun depth d => max depth d + 1) a ≤ ds'.foldl (fun depth d => max depth d + 1) b := by
  induction h generalizing a b with
  | slnil => exact hab
  | cons d _ ih => exact ih (hab.trans (Nat.le_succ_of_le (Nat.le_max_left b d)))
  | cons_cons d _ ih => exact ih (Nat.succ_le_succ (max_le_max hab (le_refl d)))

theorem joinedDepth_le (h : ∀ d ∈ ds, d ≤ c + 1) : joinedDepth ds ≤ c + ds.length := by
  cases ds with
  | nil => exact Nat.zero_le _
  | cons d ds =>
    have hd := h d List.mem_cons_self
    have := foldl_depth_le (fun d' hd' => h d' (List.mem_cons_of_mem d hd')) d
    rw [joinedDepth, List.length_cons]
    omega

/-- A condition does not get deeper when some of its operands are left out. -/
theorem joinedDepth_mono (h : ds.Sublist ds') : joinedDepth ds ≤ joinedDepth ds' := by
  cases h with
  | slnil => exact le_refl _
  | @cons _ ds'' d' h =>
    cases ds with
    | nil => exact Nat.zero_le _
    | cons d ds =>
      have hfirst : joinedDepth (d :: ds) ≤ (d :: ds).foldl (fun depth d => max depth d + 1) d' :=
        foldl_depth_mono (.refl ds) (Nat.le_succ_of_le (Nat.le_max_right d' d))
      exact hfirst.trans (foldl_depth_mono h (le_refl d'))
  | cons_cons d h => exact foldl_depth_mono h (le_refl d)

theorem joinedDepth_replicate (h : c ≤ d) (n : Nat) :
    joinedDepth (d :: List.replicate n c) = d + n := by
  change (List.replicate n c).foldl (fun depth d => max depth d + 1) d = d + n
  induction n generalizing d with
  | zero => rfl
  | succ n ih =>
    rw [List.replicate_succ, List.foldl_cons, Nat.max_eq_left h, ih (Nat.le_succ_of_le h)]
    omega

/-! ## Comparisons -/

theorem referenceDepth_le (schema : Schema) (column : String) :
    referenceDepth schema false column ≤ 2 := by
  simp only [referenceDepth, Bool.false_eq_true, if_false]
  split <;> omega

/-- Every column is one more level. -/
theorem anyDepth_le (schema : Schema) (columns : List String) :
    anyDepth schema columns ≤ columns.length + 2 := by
  have hcolumn : ∀ d ∈ columns.map fun column => referenceDepth schema false column + 1, d ≤ 2 + 1 := by
    intro d hd
    obtain ⟨column, _, rfl⟩ := List.mem_map.mp hd
    exact Nat.succ_le_succ (referenceDepth_le schema column)
  have := joinedDepth_le hcolumn
  rw [List.length_map] at this
  exact this.trans_eq (Nat.add_comm ..)

theorem le_anyDepth (schema : Schema) {columns : List String} (h : columns ≠ []) :
    columns.length + 1 ≤ anyDepth schema columns := by
  obtain ⟨column, rest, rfl⟩ := List.exists_cons_of_ne_nil h
  have := le_foldl_depth (rest.map fun column => referenceDepth schema false column + 1)
    (referenceDepth schema false column + 1)
  have hfirst : 1 ≤ referenceDepth schema false column := Nat.le_add_right 1 _
  rw [List.length_map] at this
  rw [anyDepth, List.map_cons, joinedDepth, List.length_cons]
  omega

theorem anyDepth_mono (schema : Schema) {columns columns' : List String}
    (h : columns.Sublist columns') : anyDepth schema columns ≤ anyDepth schema columns' :=
  joinedDepth_mono (h.map _)

end Provenance.Sql
