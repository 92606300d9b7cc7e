-- SUMMARY: The rows that satisfy predicates, and when their joined condition is put to the engine.
import Provenance.Memory.Source
import Provenance.Proofs.Program
import Provenance.Proofs.Depths

/-!
# Conditions

A predicate is asked of the rows of a table in the columns that it names, and of several all have to be
satisfied. Where there is no column, only a test for difference can be, and it is by every row. The
statement is not even put to the engine if one of the predicates cannot be satisfied; else its condition
may not be too deep.
-/
namespace Provenance

/-! ## Rows that satisfy a predicate -/

namespace Predicate

/-- Steps that each keep what satisfies a test keep what satisfies all tests. -/
theorem foldlM_filter {α : Type} {ps : List Predicate} {xs : List α}
    {step : List α → Predicate → Except Error (List α)} {test : Predicate → α → Bool}
    (h : ∀ p ∈ ps, ∀ xs, step xs p = .ok (xs.filter (test p))) :
    ps.foldlM step xs = .ok (xs.filter fun x => ps.all fun p => test p x) := by
  induction ps generalizing xs with
  | nil => simp
  | cons p ps ih =>
    rw [List.foldlM_cons, h p (by simp), ok_bind, ih fun p' hp' => h p' (by simp [hp'])]
    simp [List.filter_filter, Bool.and_comm]

/-- Without a column to compare nothing but a test for difference can be satisfied. -/
def IsHopeless (p : Predicate) (columns : List String) : Prop :=
  columns = [] ∧ p.operator ≠ .notEqual

theorem not_isHopeless_iff {p : Predicate} {columns : List String} :
    ¬ p.IsHopeless columns ↔ (columns = [] → p.operator = .notEqual) := by
  rw [IsHopeless, not_and, not_not]

variable [RegexLibrary]

/-- The operand can be used as a pattern, if it is one. -/
structure IsValid (p : Predicate) : Prop where
  pattern : p.isFaulty = false
  length : p.operator = .like → p.value.utf8ByteSize ≤ Sql.patternLimit

theorem IsValid.filterRows {p : Predicate} (hp : p.IsValid) (schema : Schema) (t : Table)
    (columns : List String) (rows : List Row) :
    p.filterRows schema t columns rows = .ok (rows.filter
      (p.admitsRow schema p.finder? (columns.map fun c => (c, schema.operandForm t c)))) := by
  have hfails : p.fails columns rows = false := by
    unfold fails
    split
    · simp [hp.pattern]
    · next hlike => simp [hp.length hlike]
    · rfl
  simp [Predicate.filterRows, hfails]

/-- The row satisfies the predicate in one of the columns. Where there are none, every row differs from
the value. -/
def admitsIn (p : Predicate) (schema : Schema) (t : Table) (columns : List String) (r : Row) : Bool :=
  if columns.isEmpty then p.operator = .notEqual
  else p.admitsRow schema p.finder? (columns.map fun c => (c, schema.operandForm t c)) r

variable {p : Predicate} {schema : Schema} {t : Table} {columns columns' : List String} {r : Row}

/-- Neither the order of the columns matters nor how often they are named. -/
theorem admitsIn_congr (h : ∀ c, c ∈ columns ↔ c ∈ columns') :
    p.admitsIn schema t columns r = p.admitsIn schema t columns' r := by
  have hempty : columns.isEmpty = columns'.isEmpty := by
    rw [Bool.eq_iff_iff, List.isEmpty_iff, List.isEmpty_iff, List.eq_nil_iff_forall_not_mem,
      List.eq_nil_iff_forall_not_mem]
    exact forall_congr' fun c => not_congr (h c)
  have hany : (columns.any fun c => p.operator.admits p.finder? (schema.operandForm t c) p.value
      (schema.comparedCell r c)) = columns'.any fun c => p.operator.admits p.finder?
        (schema.operandForm t c) p.value (schema.comparedCell r c) := by
    rw [Bool.eq_iff_iff, List.any_eq_true, List.any_eq_true]
    exact exists_congr fun c => and_congr_left fun _ => h c
  simp only [admitsIn, hempty, admitsRow, List.any_map, Function.comp_def, hany]

theorem not_admitsIn_of_isHopeless (h : p.IsHopeless columns) :
    p.admitsIn schema t columns r = false := by
  simp [admitsIn, h.1, h.2]

theorem IsValid.filterRows_eq (hp : p.IsValid) (hcolumns : columns ≠ []) (rows : List Row) :
    p.filterRows schema t columns rows = .ok (rows.filter (p.admitsIn schema t columns)) := by
  rw [hp.filterRows]
  refine congrArg Except.ok (List.filter_congr fun r _ => ?_)
  rw [admitsIn, if_neg (by simpa using hcolumns)]

end Predicate

/-! ## Rows that satisfy several -/

namespace Source

variable {schema : Schema} {t : Table} {aliases : String → String} {ps : List Predicate}

/-- The predicates with a column to compare. -/
def asked (t : Table) (aliases : String → String) (ps : List Predicate) : List Predicate :=
  ps.filter fun p => !(columnsOf aliases t.names p).isEmpty

/-- The condition of a lookup is put to the engine unless one of the predicates is hopeless. Then it
may not be too deep. -/
def LookupFits (schema : Schema) (t : Table) (aliases : String → String) (ps : List Predicate) :
    Prop :=
  (∀ p ∈ ps, ¬ p.IsHopeless (columnsOf aliases t.names p)) →
    Sql.joinedDepth ((asked t aliases ps).map fun p =>
      Sql.anyDepth schema (columnsOf aliases t.names p)) ≤ Sql.depthLimit

theorem any_hopeless_iff : (ps.any fun p => (columnsOf aliases t.names p).isEmpty &&
    p.operator ≠ .notEqual) = true ↔ ∃ p ∈ ps, p.IsHopeless (columnsOf aliases t.names p) := by
  simp [Predicate.IsHopeless]

section Selecting

variable [RegexLibrary]

theorem selectRows_eq : selectRows schema t aliases ps =
    if ps.any fun p => (columnsOf aliases t.names p).isEmpty && p.operator ≠ .notEqual then .ok []
    else if Sql.depthLimit < Sql.joinedDepth ((asked t aliases ps).map fun p =>
      Sql.anyDepth schema (columnsOf aliases t.names p)) then .error .statementFailed
    else (asked t aliases ps).foldlM (fun rows p =>
      p.filterRows schema t (columnsOf aliases t.names p) rows) t.rows :=
  if_congr Iff.rfl rfl (if_congr Iff.rfl rfl rfl)

/-- A lookup that fits selects the rows that satisfy all predicates. -/
theorem selectRows_of_fits (hvalid : ∀ p ∈ ps, p.IsValid) (hfits : LookupFits schema t aliases ps) :
    selectRows schema t aliases ps = .ok (t.rows.filter fun r => ps.all fun p =>
      p.admitsIn schema t (columnsOf aliases t.names p) r) := by
  rw [selectRows_eq]
  by_cases hopeless : ∃ p ∈ ps, p.IsHopeless (columnsOf aliases t.names p)
  · rw [if_pos (any_hopeless_iff.mpr hopeless)]
    obtain ⟨p, hp, hnone⟩ := hopeless
    refine congrArg Except.ok (List.filter_eq_nil_iff.mpr fun r _ hall => ?_).symm
    rw [List.all_eq_true] at hall
    simpa [Predicate.not_admitsIn_of_isHopeless hnone] using hall p hp
  · have hdepth := hfits fun p hp hnone => hopeless ⟨p, hp, hnone⟩
    rw [if_neg (mt any_hopeless_iff.mp hopeless), if_neg (Nat.not_lt.mpr hdepth)]
    have hstep (p : Predicate) (hp : p ∈ asked t aliases ps) (rows : List Row) :
        p.filterRows schema t (columnsOf aliases t.names p) rows =
          .ok (rows.filter (p.admitsIn schema t (columnsOf aliases t.names p))) := by
      obtain ⟨hp, hsome⟩ := List.mem_filter.mp hp
      exact (hvalid p hp).filterRows_eq (by simpa using hsome) rows
    refine (Predicate.foldlM_filter hstep).trans (congrArg Except.ok ?_)
    refine List.filter_congr fun r _ => ?_
    rw [Bool.eq_iff_iff, List.all_eq_true, List.all_eq_true]
    refine ⟨fun hall p hp => ?_, fun hall p hp => hall p (List.mem_filter.mp hp).1⟩
    by_cases hcolumns : columnsOf aliases t.names p = []
    · -- what is not asked tests for difference
      have hoperator : p.operator = .notEqual := by
        by_contra hne
        exact hopeless ⟨p, hp, hcolumns, hne⟩
      simp [Predicate.admitsIn, hcolumns, hoperator]
    · exact hall p (List.mem_filter.mpr ⟨hp, by simpa using hcolumns⟩)

theorem selectRows_of_not_fits (hfits : ¬ LookupFits schema t aliases ps) :
    selectRows schema t aliases ps = .error .statementFailed := by
  obtain ⟨hopeless, hdepth⟩ := Classical.not_imp.mp hfits
  have hnone : ¬ ∃ p ∈ ps, p.IsHopeless (columnsOf aliases t.names p) := by simpa using hopeless
  rw [selectRows_eq, if_neg (mt any_hopeless_iff.mp hnone), if_pos (Nat.not_le.mp hdepth)]

end Selecting

/-- A condition gets deeper with every predicate and with every column. -/
theorem lookupFits_of_le (h : t.names.length + ps.length + 1 ≤ Sql.depthLimit) :
    LookupFits schema t aliases ps := by
  intro _
  have hcolumns (p : Predicate) : (columnsOf aliases t.names p).length ≤ t.names.length := by
    rw [columnsOf]
    split
    · exact (List.length_mergeSort _).le
    · exact List.length_filter_le _ _
  have hdepths : ∀ d ∈ (asked t aliases ps).map fun p =>
      Sql.anyDepth schema (columnsOf aliases t.names p), d ≤ t.names.length + 1 + 1 := by
    intro d hd
    obtain ⟨p, _, rfl⟩ := List.mem_map.mp hd
    exact (Sql.anyDepth_le _ _).trans (Nat.add_le_add_right (hcolumns p) 2)
  have hjoined := Sql.joinedDepth_le hdepths
  have hasked : (asked t aliases ps).length ≤ ps.length := List.length_filter_le _ _
  rw [List.length_map] at hjoined
  omega

end Source
end Provenance
