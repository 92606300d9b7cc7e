-- SUMMARY: What is read of annotations that have grown by a key.
import Provenance.Proofs.BlankKeys
import Provenance.Proofs.Growth

/-!
# Annotations that have grown

What the instructions read that name annotation keys, where the annotation table has grown by a key that
they do not name, or name in vain: a wildcard compares one more column, in which it finds nothing; an
export and a description pass over the nulls; and edges that are grouped by one more column, in which all
agree, fall into the same groups.
-/
namespace Provenance

open Program

/-! ## Depths -/

namespace Sql

theorem selectDepth_mono (schema : Schema) (g : GraphRef) {columns columns' : List String}
    (h : columns.Sublist columns') : selectDepth schema g columns ≤ selectDepth schema g columns' := by
  have hle := anyDepth_mono schema h
  cases g with
  | base => exact hle
  | named name =>
    simp only [selectDepth, restrictedDepth]
    omega

/-- A condition on a single column is within the limits of the engine. -/
theorem selectDepth_singleton_le (schema : Schema) (g : GraphRef) (column : String) :
    selectDepth schema g [column] ≤ depthLimit :=
  (selectDepth_le schema g [column]).trans (show 1 + 4 ≤ depthLimit by decide)

theorem selectDepth_nil_le (schema : Schema) (g : GraphRef) : selectDepth schema g [] ≤ depthLimit :=
  (selectDepth_le schema g []).trans (by decide)

end Sql

/-! ## Comparisons -/

/-- The columns are the same but for one more, if any, and not the first of all. -/
structure Column.Names (key : String) (names names' : List String) : Prop where
  fresh : key ∉ names
  others : ∀ name, name ≠ key → (name ∈ names' ↔ name ∈ names)
  sublist : names.Sublist names'
  isEmpty_eq : names'.isEmpty = names.isEmpty

namespace Column.Names

variable {key : String} {names names' : List String}

theorem any_eq (h : Names key names names') {f f' : String → Bool}
    (hf : ∀ name, name ≠ key → f name = f' name) (hkey : f' key = false) :
    names.any f = names'.any f' := by
  rw [Bool.eq_iff_iff, List.any_eq_true, List.any_eq_true]
  constructor
  · rintro ⟨name, hname, htrue⟩
    have hne : name ≠ key := fun heq => h.fresh (heq ▸ hname)
    exact ⟨name, (h.others name hne).mpr hname, hf name hne ▸ htrue⟩
  · rintro ⟨name, hname, htrue⟩
    have hne : name ≠ key := by
      rintro rfl
      rw [hkey] at htrue
      cases htrue
    exact ⟨name, (h.others name hne).mp hname, (hf name hne).symm ▸ htrue⟩

/-- A wildcard names one column more, and any other key none. -/
theorem columnsIn {columns columns' : List Column} (h : Column.Added key columns columns')
    (hsome : columns ≠ []) {p : Predicate} (hp : p.isWildcard = true ∨ p.key ≠ key) :
    Names key (p.columnsIn (columns.map (·.name))) (p.columnsIn (columns'.map (·.name))) := by
  unfold Predicate.columnsIn
  by_cases hwildcard : p.isWildcard = true
  · rw [if_pos hwildcard, if_pos hwildcard]
    refine ⟨h.fresh, fun name hname => h.mem_iff hname, h.sublist, ?_⟩
    have hsome' : columns' ≠ [] := by
      rintro rfl
      exact absurd h.mem_key (by simp)
    rw [Bool.eq_iff_iff]
    simp [hsome, hsome']
  · have hne : p.key ≠ key := hp.resolve_left hwildcard
    rw [if_neg hwildcard, if_neg hwildcard, h.filter_eq (by simpa using hne.symm)]
    refine ⟨?_, fun _ _ => Iff.rfl, .refl _, rfl⟩
    simp [hne.symm]

end Column.Names

theorem Row.Grown.any_eq {key : String} {rows rows' : List Row} {f f' : Row → Bool}
    (h : List.Forall₂ (Row.Grown key) rows rows')
    (hf : ∀ r r', Row.Grown key r r' → f r = f' r') : rows.any f = rows'.any f' := by
  have hmap := congrArg (List.any · id) (map_eq h hf)
  simpa [List.any_map] using hmap

namespace Row.Grown

variable {key name : String} {r r' : Row}

theorem comparedCell_eq (h : Row.Grown key r r') (schema : Schema) (hname : name ≠ key) :
    schema.comparedCell r' name = schema.comparedCell r name := by
  rw [Schema.comparedCell, Schema.comparedCell, h.others name hname]

theorem comparedCell_key (h : Row.Grown key r r') (schema : Schema) :
    schema.comparedCell r' key = .null :=
  Schema.comparedCell_of_null h.blank

end Row.Grown

namespace Predicate

variable {p : Predicate} {schema : Schema} {key : String} {columns columns' : List Column}
  {names names' : List String} {t t' : Table} {rows rows' : List Row}

theorem fails_eq [RegexLibrary] (hnames : Column.Names key names names')
    (hrows : List.Forall₂ (Row.Grown key) rows rows') : p.fails names rows = p.fails names' rows' := by
  have hregex : (rows.any fun r => names.any fun c => r.get c ≠ .null) =
      rows'.any fun r => names'.any fun c => r.get c ≠ .null := by
    refine Row.Grown.any_eq hrows fun r r' hr => hnames.any_eq (fun name hname => ?_) ?_
    · rw [hr.others name hname]
    · simp [hr.blank]
  have hempty : rows.isEmpty = rows'.isEmpty := by
    rw [Bool.eq_iff_iff, List.isEmpty_iff_length_eq_zero, List.isEmpty_iff_length_eq_zero,
      hrows.length_eq]
  unfold fails
  rw [hregex, hempty, hnames.isEmpty_eq]

theorem admitsRow_eq (hadded : Column.Added key columns columns')
    (hgrown : t.Grown key columns columns' t') (hnames : Column.Names key names names')
    {r r' : Row} (hr : Row.Grown key r r') (finder : Option (String → Bool)) :
    p.admitsRow schema finder (names.map fun c => (c, schema.operandForm t c)) r =
      p.admitsRow schema finder (names'.map fun c => (c, schema.operandForm t' c)) r' := by
  unfold admitsRow
  rw [List.any_map, List.any_map]
  refine hnames.any_eq (fun name hname => ?_) ?_
  · simp only [Function.comp_apply, Schema.operandForm, hgrown.affinity_eq hadded hname,
      hr.comparedCell_eq schema hname]
  · simp only [Function.comp_apply, hr.comparedCell_key schema, Operator.admits_null]

/-- The same rows are selected. -/
theorem filterRows_alike [RegexLibrary] (hadded : Column.Added key columns columns')
    (hgrown : t.Grown key columns columns' t') (hnames : Column.Names key names names') :
    Except.Alike (List.Forall₂ (Row.Grown key)) (p.filterRows schema t names t.rows)
      (p.filterRows schema t' names' t'.rows) := by
  unfold filterRows
  dsimp only
  rw [fails_eq hnames hgrown.rows]
  split
  · exact .error _
  · exact .ok (Row.Grown.filter hgrown.rows fun _ _ hr => admitsRow_eq hadded hgrown hnames hr _)

end Predicate

/-! ## Groups -/

/-- A list of values with a null for every column of the name. -/
def Value.widened (key : String) : List String → List Value → List Value
  | [], vs => vs
  | column :: columns, vs =>
    if column = key then .null :: widened key columns vs
    else
      match vs with
      | [] => []
      | v :: vs => v :: widened key columns vs

namespace Value

variable {key : String} {columns : List String}

theorem widened_key (vs : List Value) :
    widened key (key :: columns) vs = .null :: widened key columns vs := by
  simp [widened]

theorem widened_nil_of_ne {column : String} (h : column ≠ key) :
    widened key (column :: columns) [] = [] := by
  simp [widened, h]

theorem widened_cons_of_ne {column : String} (h : column ≠ key) (v : Value) (vs : List Value) :
    widened key (column :: columns) (v :: vs) = v :: widened key columns vs := by
  simp [widened, h]

theorem widened_injective (key : String) (columns : List String) :
    Function.Injective (widened key columns) := by
  induction columns with
  | nil => exact fun _ _ => id
  | cons column columns ih =>
    intro vs ws h
    by_cases hcolumn : column = key
    · subst hcolumn
      rw [widened_key, widened_key] at h
      exact ih (List.cons.inj h).2
    cases vs with
    | nil =>
      cases ws with
      | nil => rfl
      | cons w ws =>
        rw [widened_nil_of_ne hcolumn, widened_cons_of_ne hcolumn] at h
        cases h
    | cons v vs =>
      cases ws with
      | nil =>
        rw [widened_nil_of_ne hcolumn, widened_cons_of_ne hcolumn] at h
        cases h
      | cons w ws =>
        rw [widened_cons_of_ne hcolumn, widened_cons_of_ne hcolumn] at h
        obtain ⟨rfl, hrest⟩ := List.cons.inj h
        rw [ih hrest]

/-- Nulls in the same places do not change the order. -/
theorem listLe_widened (key : String) (columns : List String) (vs ws : List Value) :
    listLe (widened key columns vs) (widened key columns ws) = listLe vs ws := by
  induction columns generalizing vs ws with
  | nil => rfl
  | cons column columns ih =>
    by_cases hcolumn : column = key
    · subst hcolumn
      rw [widened_key, widened_key, listLe, if_pos rfl, ih]
    cases vs with
    | nil =>
      rw [widened_nil_of_ne hcolumn]
      rfl
    | cons v vs =>
      cases ws with
      | nil =>
        rw [widened_nil_of_ne hcolumn, widened_cons_of_ne hcolumn]
        rfl
      | cons w ws =>
        rw [widened_cons_of_ne hcolumn, widened_cons_of_ne hcolumn, listLe, listLe, ih]

/-- The values by which a row that has grown is grouped. -/
theorem map_widened {r r' : Row} (hr : Row.Grown key r r') :
    columns.map (fun column => (r'.get column).canonical) =
      widened key columns
        ((columns.filter (· ≠ key)).map fun column => (r.get column).canonical) := by
  induction columns with
  | nil => rfl
  | cons column columns ih =>
    by_cases hcolumn : column = key
    · subst hcolumn
      rw [List.filter_cons_of_neg (by simp), List.map_cons, ih, hr.blank, widened_key]
      rfl
    · rw [List.filter_cons_of_pos (by simpa using hcolumn), List.map_cons, List.map_cons, ih,
        hr.others column hcolumn, widened_cons_of_ne hcolumn]

end Value

theorem List.eraseDups_map {α β : Type} [BEq α] [LawfulBEq α] [BEq β] [LawfulBEq β] {f : α → β}
    (hf : Function.Injective f) (as : List α) : (as.map f).eraseDups = as.eraseDups.map f := by
  match as with
  | [] => rfl
  | a :: as =>
    have hfilter : (as.map f).filter (fun b => !b == f a) = (as.filter fun b => !b == a).map f := by
      rw [List.filter_map]
      congr 1
      exact List.filter_congr fun b _ => by simp [hf.eq_iff]
    rw [List.map_cons, List.eraseDups_cons, List.eraseDups_cons, List.map_cons, hfilter,
      List.eraseDups_map hf]
termination_by as.length
decreasing_by exact Nat.lt_succ_of_le (List.length_filter_le _ as)

namespace Environment

/-- Edges fall into the same groups if they are grouped by the new column too. -/
theorem leastOfGroups_eq (env : Environment) {key : String} (hid : env.schema.idColumn ≠ key)
    {rows rows' : List Row} (hrows : List.Forall₂ (Row.Grown key) rows rows')
    (columns : List String) :
    env.leastOfGroups rows (columns.filter (· ≠ key)) = env.leastOfGroups rows' columns := by
  let short (r : Row) : List Value :=
    (columns.filter (· ≠ key)).map fun column => (r.get column).canonical
  let long (r : Row) : List Value := columns.map fun column => (r.get column).canonical
  have hlong {r r' : Row} (hr : Row.Grown key r r') :
      Value.widened key columns (short r) = long r' :=
    (Value.map_widened hr).symm
  have hwidened : (rows.map short).map (Value.widened key columns) = rows'.map long := by
    rw [List.map_map]
    exact Row.Grown.map_eq hrows fun r r' hr => hlong hr
  have hkeys : ((rows.map short).eraseDups.mergeSort Value.listLe).map (Value.widened key columns) =
      (rows'.map long).eraseDups.mergeSort Value.listLe := by
    rw [List.map_mergeSort fun vs _ ws _ => (Value.listLe_widened key columns vs ws).symm,
      ← List.eraseDups_map (Value.widened_injective key columns), hwidened]
  change ((rows.map short).eraseDups.mergeSort Value.listLe).map (fun k => Value.least
      ((rows.filter fun r => short r = k).map (·.get env.schema.idColumn))) =
    ((rows'.map long).eraseDups.mergeSort Value.listLe).map (fun k => Value.least
      ((rows'.filter fun r => long r = k).map (·.get env.schema.idColumn)))
  rw [← hkeys, List.map_map]
  refine List.map_congr_left fun k _ => congrArg Value.least ?_
  refine Row.Grown.get_eq (Row.Grown.filter hrows fun r r' hr => ?_) hid
  simp only [← hlong hr, decide_eq_decide]
  exact (Value.widened_injective key columns).eq_iff.symm

end Environment
end Provenance
