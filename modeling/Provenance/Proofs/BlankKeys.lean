-- SUMMARY: Instructions that name a key under which no element has a value.
import Provenance.Proofs.Refusals
import Provenance.Proofs.IdTables
import Provenance.Proofs.Depths

/-!
# Keys without a value

A key may have no column, or a column that is null in every row. An instruction that names such a key
finds nothing, puts nothing into its target and answers as if the graph were empty. Without a column it
does not even ask for the graph; with one it does, so the handles have to be right, and the statement
within the limits of the engine.
-/
namespace Provenance

open Program Store

/-- The same tables under all names. -/
def Database.Same (db db' : Database) : Prop := ∀ name, db'.find? name = db.find? name

/-- Nothing is added to a table. -/
theorem Database.same_of_insertColumn_nil {db db' : Database} {name column : String}
    (h : db.insertColumn name column [] = .ok db') : db.Same db' := by
  obtain ⟨t, ht, _, rfl⟩ := insertColumn_eq_ok h
  intro other
  rw [find?_put]
  split
  · next hname =>
    rw [find?, hname, ← find?, ht]
    simp [Table.append, Table.column]
  · rfl

theorem Database.exists_insertColumn {db : Database} {name column : String} {t : Table}
    (ht : db.find? name = some t) (hhas : t.has column = true) (vs : List Value) :
    ∃ db', db.insertColumn name column vs = .ok db' :=
  ⟨db.put name (t.append (t.column column vs)), by
    simp [insertColumn, tableWith_of_find? ht (show ∀ name ∈ [column], t.has name = true by
      simpa using hhas)]⟩

theorem Database.columnNames_eq_ok {db : Database} {name : String} {names : List String}
    (h : db.columnNames name = .ok names) : ∃ t, db.find? name = some t ∧ t.names = names := by
  unfold columnNames table at h
  cases hfind : db.find? name with
  | none => simp [hfind, bind, Except.bind] at h
  | some t =>
    simp only [hfind, ok_bind] at h
    exact ⟨t, rfl, Except.ok.inj h⟩

@[simp] theorem Value.groups_nil : groups [] = [] := by simp [groups]

/-! ## Depths of selections -/

/-- The depth of the condition of a selection from a graph, which restricts it unless it is the base
graph. -/
def Sql.selectDepth (schema : Schema) (g : GraphRef) (columns : List String) : Nat :=
  match g with
  | .base => anyDepth schema columns
  | .named _ => restrictedDepth (anyDepth schema columns)

theorem Sql.selectDepth_le (schema : Schema) (g : GraphRef) (columns : List String) :
    selectDepth schema g columns ≤ columns.length + 4 := by
  have := anyDepth_le schema columns
  cases g with
  | base =>
    rw [selectDepth]
    omega
  | named name =>
    rw [selectDepth, restrictedDepth]
    omega

theorem Sql.selectDepth_eq {env : Environment} {g : GraphRef} {e : Element} {table? : Option String}
    (h : env.restriction? g e = .ok table?) (columns : List String) :
    (if table?.isSome then restrictedDepth (anyDepth env.schema columns)
      else anyDepth env.schema columns) = selectDepth env.schema g columns := by
  cases g with
  | base =>
    obtain rfl := Except.ok.inj h
    rfl
  | named name =>
    obtain ⟨_, _, htable⟩ := Except.bind_eq_ok.mp h
    obtain rfl := Except.ok.inj htable
    rfl

/-! ## Nothing found -/

/-- A null is compared as a null. -/
theorem Schema.comparedCell_of_null {schema : Schema} {r : Row} {column : String}
    (h : r.get column = .null) : schema.comparedCell r column = .null := by
  rw [comparedCell, h]
  exact ite_self _

/-- A null satisfies no comparison. -/
theorem Operator.admits_null (op : Operator) (finder : Option (String → Bool)) (form : Affinity)
    (operand : String) : op.admits finder form operand .null = false := rfl

/-- With a null in every column that is named, nothing is selected. -/
theorem Predicate.filterRows_of_blank [RegexLibrary] {p : Predicate} {schema : Schema} {t : Table}
    {columns : List String} {rows selected : List Row}
    (hblank : ∀ column ∈ columns, ∀ r ∈ rows, r.get column = .null)
    (h : p.filterRows schema t columns rows = .ok selected) : selected = [] := by
  unfold filterRows at h
  dsimp only at h
  split at h
  · cases h
  · obtain rfl := Except.ok.inj h
    rw [List.filter_eq_nil_iff]
    intro r hr
    rw [admitsRow, List.any_map, Bool.not_eq_true, List.any_eq_false]
    intro column hcolumn
    simp only [Function.comp_apply, Schema.comparedCell_of_null (hblank column hcolumn r hr),
      Operator.admits_null, Bool.false_eq_true, not_false_eq_true]

theorem Predicate.exists_filterRows_of_blank [RegexLibrary]
    {p : Predicate} {schema : Schema} {t : Table}
    {columns : List String} {rows : List Row}
    (hblank : ∀ column ∈ columns, ∀ r ∈ rows, r.get column = .null)
    (hpattern : p.operator = .like → p.value.utf8ByteSize ≤ Sql.patternLimit) :
    p.filterRows schema t columns rows = .ok [] := by
  have hfails : p.fails columns rows = false := by
    unfold fails
    split
    · rw [Bool.and_eq_false_iff]
      right
      rw [List.any_eq_false]
      intro r hr
      rw [Bool.not_eq_true, List.any_eq_false]
      intro column hcolumn
      simp [hblank column hcolumn r hr]
    · next hlike => simp [Nat.not_lt.mpr (hpattern hlike)]
    · rfl
  have hok : ∃ selected, p.filterRows schema t columns rows = .ok selected := by
    simp [filterRows, hfails]
  obtain ⟨selected, hselected⟩ := hok
  rw [hselected, filterRows_of_blank hblank hselected]

namespace Environment

variable {env : Environment} {s : Store} {db : Database} {e : Element} {key : String}
  {g target : GraphRef} {table? : Option String} {names : List String} {rows : List Row}

/-- No row has a value for the key: there is no such column, or it is null everywhere. -/
def Blank (env : Environment) (db : Database) (e : Element) (key : String) : Prop :=
  ∀ t, db.find? (env.schema.annotationTable e) = some t → t.has key = true →
    ∀ r ∈ t.rows, r.get key = .null

/-- The annotations have a column for each of the names. -/
def HasColumns (env : Environment) (db : Database) (e : Element) (names : List String) : Prop :=
  ∀ t, db.find? (env.schema.annotationTable e) = some t → ∀ column ∈ names, t.has column = true

/-- The graph is there, with tables of ids. -/
def Readable (env : Environment) (db : Database) (g : GraphRef) : Prop :=
  ∃ tables, env.resolve g = .ok tables ∧ ∀ e, ∃ t, db.find? (tables.part e) = some t ∧
    t.has env.schema.idColumn = true

/-- Rows in which the key had to be found are without a value for it. -/
theorem Blank.of_scope (h : env.Blank db e key) (hrows : env.rowsInScope db e table? names = .ok rows)
    (hkey : key ∈ names) : ∀ r ∈ rows, r.get key = .null := by
  obtain ⟨t, ht, hhas, hrestrict⟩ := rowsInScope_eq_ok hrows
  exact fun r hr => h t ht (hhas key hkey) r (mem_of_restrict hrestrict hr)

theorem Blank.of_cells (h : env.Blank db e key) {vs : List Value}
    (hvs : env.cellsInScope db e table? key = .ok vs) : ∀ v ∈ vs, v = .null := by
  obtain ⟨rows, hrows, hvs⟩ := Except.bind_eq_ok.mp hvs
  obtain rfl := Except.ok.inj hvs
  intro v hv
  obtain ⟨r, hr, rfl⟩ := List.mem_map.mp hv
  exact h.of_scope hrows (by simp) r hr

/-- A comparison with a value selects nothing, within any graph. -/
theorem Blank.idsMatching_eq_ok [RegexLibrary] (h : env.Blank db e key) {p : Predicate}
    (hcolumns : ∀ column ∈ names, column = key) (hsome : names ≠ []) {vs : List Value}
    (hhas : ∀ t, db.find? (env.schema.annotationTable e) = some t → names ⊆ t.names)
    (hvs : env.idsMatching db e table? p names = .ok vs) : vs = [] := by
  obtain ⟨_, hvs⟩ := Except.guard_eq_ok.mp hvs
  obtain ⟨t, ht, hvs⟩ := Except.bind_eq_ok.mp hvs
  have hfind := (Database.tableWith_eq_ok ht).1
  have hblank : ∀ column ∈ names, ∀ r ∈ t.rows, r.get column = .null := by
    intro column hcolumn
    obtain rfl := hcolumns column hcolumn
    exact h t hfind (by simpa [Table.has] using hhas t hfind hcolumn)
  rw [if_neg (by simpa using hsome)] at hvs
  obtain ⟨selected, hselected, hvs⟩ := Except.bind_eq_ok.mp hvs
  obtain rfl := p.filterRows_of_blank hblank hselected
  obtain ⟨kept, hkept, hvs⟩ := Except.bind_eq_ok.mp hvs
  obtain rfl := Except.ok.inj hvs
  rw [List.map_eq_nil_iff]
  exact List.eq_nil_iff_forall_not_mem.mpr fun r hr => absurd (mem_of_restrict hkept hr) (by simp)

/-- Whatever comes of it, a selection by the key puts nothing into its target. Only a test for
difference needs the column for that. -/
theorem select_of_blank [RegexLibrary] (h : env.Blank s.database e key) {p : Predicate}
    (hwildcard : p.isWildcard = false) (hkey : p.key = key)
    (hcolumn : p.operator = .notEqual → ∀ t, s.database.find? (env.schema.annotationTable e) = some t →
      t.has key = true) :
    (env.select e target g (some p)).ends (fun _ s' => s.database.Same s'.database)
      (fun s' => s.database.Same s'.database) s := by
  have hsame : s.database.Same s.database := fun _ => rfl
  unfold select
  refine .bind (.ofExcept hsame fun tables _ => .bind (.ofExcept hsame fun _ _ => ?_))
  refine .bind (.ofExcept hsame fun table? _ => .bind (.query hsame fun existing hexisting => ?_))
  refine .ite (fun _ => .pure hsame) fun hempty => .update hsame fun db hdb => ?_
  obtain ⟨t, ht, rfl⟩ := Database.columnNames_eq_ok hexisting
  obtain ⟨vs, hvs, hdb⟩ := Except.bind_eq_ok.mp hdb
  obtain ⟨ids, hids, hvs⟩ := Except.bind_eq_ok.mp hvs
  have hcolumns : p.columnsIn t.names = t.names.filter (· = key) := by
    simp [Predicate.columnsIn, hwildcard, hkey]
  have hsome : p.columnsIn t.names ≠ [] := by
    intro hnone
    have hoperator : p.operator = .notEqual := by simpa [hnone] using hempty
    have hmem : key ∈ t.names := by simpa [Table.has] using hcolumn hoperator t ht
    rw [hcolumns, List.filter_eq_nil_iff] at hnone
    exact hnone key hmem (decide_eq_true rfl)
  obtain rfl : ids = [] := by
    refine h.idsMatching_eq_ok (fun column hin => ?_) hsome (fun t' ht' => ?_) hids
    · rw [hcolumns] at hin
      simpa using (List.mem_filter.mp hin).2
    · obtain rfl : t = t' := Option.some.inj (ht.symm.trans ht')
      rw [hcolumns]
      exact List.filter_subset_self _
  obtain rfl := Except.ok.inj hvs
  rw [Value.groups_nil] at hdb
  exact Database.same_of_insertColumn_nil hdb

/-! ## What can be read -/

theorem Readable.restriction? (h : env.Readable db g) (e : Element) :
    ∃ table?, env.restriction? g e = .ok table? ∧
      ∀ table ∈ table?, ∃ c, env.schema.ids db table = .ok c := by
  obtain ⟨tables, htables, hids⟩ := h
  cases g with
  | base => exact ⟨none, rfl, by simp⟩
  | named name =>
    obtain ⟨t, ht, hhas⟩ := hids e
    have hrestriction : env.restriction? (.named name) e = .ok (some (tables.part e)) := by
      simp [Environment.restriction?, htables]
    exact ⟨_, hrestriction, by simpa using ⟨_, Schema.ids_of_find? ht hhas⟩⟩

/-- The annotations of the base graph can be read. -/
theorem Readable.annotations (h : env.Readable db .base) (e : Element) :
    ∃ t, db.find? (env.schema.annotationTable e) = some t ∧ t.has env.schema.idColumn = true := by
  obtain ⟨tables, htables, hids⟩ := h
  obtain rfl := Except.ok.inj htables
  have hpart := hids e
  cases e <;> exact hpart

theorem exists_restrict {t : Table} (hhas : t.has env.schema.idColumn = true)
    (hids : ∀ table ∈ table?, ∃ c, env.schema.ids db table = .ok c) :
    ∃ rows, env.restrict db t table? = .ok rows := by
  cases table? with
  | none => exact ⟨_, rfl⟩
  | some table =>
    obtain ⟨c, hc⟩ := hids table rfl
    exact ⟨t.rowsWithin env.schema.idColumn c, by simp [restrict, hhas, hc]⟩

theorem exists_readRows (hbase : env.Readable db .base)
    (hids : ∀ table ∈ table?, ∃ c, env.schema.ids db table = .ok c)
    (hnames : env.HasColumns db e names) :
    ∃ rows, env.rowsInScope db e table? names = .ok rows := by
  obtain ⟨t, ht, hhas⟩ := hbase.annotations e
  obtain ⟨rows, hrows⟩ := exists_restrict hhas hids
  exact ⟨rows, by simp [rowsInScope, Database.tableWith_of_find? ht (hnames t ht), hrows]⟩

/-- In the scope of the base graph are all cells of the key's column. -/
theorem cellsInScope_base {t : Table}
    (ht : db.find? (env.schema.annotationTable e) = some t) (hkey : t.has key = true) :
    env.cellsInScope db e none key = .ok (t.values key) := by
  have hfound : db.tableWith (env.schema.annotationTable e) [key] = .ok t :=
    Database.tableWith_of_find? ht (by simpa using hkey)
  rw [cellsInScope, rowsInScope, hfound]
  rfl

theorem cellsInScope_subset {t : Table} (ht : db.find? (env.schema.annotationTable e) = some t)
    {vs : List Value} (h : env.cellsInScope db e table? key = .ok vs) : vs ⊆ t.values key := by
  obtain ⟨rows, hrows, hvs⟩ := Except.bind_eq_ok.mp h
  obtain rfl := Except.ok.inj hvs
  obtain ⟨t', ht', _, hrestrict⟩ := rowsInScope_eq_ok hrows
  obtain rfl := Option.some.inj (ht.symm.trans ht')
  exact List.map_subset _ fun r hr => mem_of_restrict hrestrict hr

/-- A statement whose condition is not too deep finds the ids of the rows that are selected, within the
restriction. -/
theorem idsMatching_of_restrict [RegexLibrary] {p : Predicate} {t : Table} {selected : List Row}
    (ht : db.find? (env.schema.annotationTable e) = some t)
    (hid : t.has env.schema.idColumn = true) (htable : env.restriction? g e = .ok table?)
    (hdepth : Sql.selectDepth env.schema g names ≤ Sql.depthLimit)
    (hselected : (if names.isEmpty then pure t.rows else p.filterRows env.schema t names t.rows) =
      .ok selected)
    (hrows : env.restrict db { t with rows := selected } table? = .ok rows) :
    env.idsMatching db e table? p names = .ok (rows.map (·.get env.schema.idColumn)) := by
  have hfound : db.tableWith (env.schema.annotationTable e) [env.schema.idColumn] = .ok t :=
    Database.tableWith_of_find? ht (by simpa using hid)
  unfold idsMatching
  dsimp only
  rw [Sql.selectDepth_eq htable, if_neg (Nat.not_lt.mpr hdepth), hfound]
  split at hselected
  · next hempty =>
    obtain rfl := Except.ok.inj hselected
    simp only [ok_bind, if_pos hempty, hrows, pure_eq_ok]
  · next hempty => simp only [ok_bind, if_neg hempty, hselected, hrows, pure_eq_ok]

section Answers

variable (hbase : env.Readable s.database .base) (hblank : env.Blank s.database e key)

include hbase

theorem wp_annotationColumns {Q : List String → Store → Prop}
    (hQ : ∀ t, s.database.find? (env.schema.annotationTable e) = some t → Q t.names s) :
    (env.annotationColumns e).wp Q s := by
  obtain ⟨t, ht, _⟩ := hbase.annotations e
  exact .query (by simp [Database.columnNames, Database.table, ht]) (hQ t ht)

/-! ### Statistics -/

/-- The values present under a key that there is are cells in the scope of the graph. -/
theorem exists_presentValues (hg : env.Readable s.database g)
    (hhas : env.HasColumns s.database e [key]) :
    ∃ table? cells, env.restriction? g e = .ok table? ∧
      env.cellsInScope s.database e table? key = .ok cells ∧
      (env.presentValues g e key).perform s = (.ok (cells.filter isPresent), s) := by
  obtain ⟨table?, htable, hids⟩ := hg.restriction? e
  obtain ⟨rows, hrows⟩ := exists_readRows hbase hids hhas
  have hcells : env.cellsInScope s.database e table? key = .ok (rows.map (·.get key)) := by
    simp [cellsInScope, hrows]
  have hwp : (env.presentValues g e key).wp
      (fun vs s' => vs = (rows.map (·.get key)).filter isPresent ∧ s' = s) s := by
    refine .bind (wp_annotationColumns hbase fun t ht => ?_)
    have hcolumn : t.names.contains key = true := hhas t ht key (by simp)
    rw [if_neg (by simpa using hcolumn)]
    exact .bind (.ofExcept htable (.query (by simp [hcells]) ⟨rfl, rfl⟩))
  obtain ⟨_, _, hrun, rfl, rfl⟩ := hwp
  exact ⟨table?, _, htable, hcells, hrun⟩

include hblank

theorem presentValues_of_blank (hg : env.Readable s.database g) :
    (env.presentValues g e key).perform s = (.ok [], s) := by
  obtain ⟨t, ht, _⟩ := hbase.annotations e
  by_cases hcolumn : t.has key = true
  · have hhas : env.HasColumns s.database e [key] := by
      intro t' ht' column hin
      obtain rfl : t = t' := Option.some.inj (ht.symm.trans ht')
      obtain rfl := List.mem_singleton.mp hin
      exact hcolumn
    obtain ⟨table?, cells, _, hcells, hrun⟩ := exists_presentValues hbase hg hhas
    have hnone : cells.filter isPresent = [] := by
      rw [List.filter_eq_nil_iff]
      intro v hv
      rw [hblank.of_cells hcells v hv]
      decide
    exact hnone ▸ hrun
  · have hwp : (env.presentValues g e key).wp (fun vs s' => vs = [] ∧ s' = s) s := by
      refine .bind (wp_annotationColumns hbase fun t' ht' => ?_)
      obtain rfl : t = t' := Option.some.inj (ht.symm.trans ht')
      rw [if_pos (by simpa [Table.has] using hcolumn)]
      exact .pure ⟨rfl, rfl⟩
    obtain ⟨_, _, hrun, rfl, rfl⟩ := hwp
    exact hrun

end Answers

/-! ### Selections -/

/-- A statement that selects nothing adds nothing. -/
theorem wp_insertNothing {table : String} {t : Table}
    {select : Database → Except Error (List Value)} (ht : s.database.find? table = some t)
    (hhas : t.has env.schema.idColumn = true) (hselect : select s.database = .ok []) :
    (env.schema.insertIds table select).wp (fun _ s' => s.database.Same s'.database) s := by
  obtain ⟨db, hdb⟩ := Database.exists_insertColumn ht hhas []
  exact .update (by simpa [hselect] using hdb) (Database.same_of_insertColumn_nil hdb)

theorem exists_writable (hready : env.Readable db target) (htarget : target ≠ .base) :
    ∃ tables, env.writable target = .ok tables ∧ ∀ e, ∃ t, db.find? (tables.part e) = some t ∧
      t.has env.schema.idColumn = true := by
  obtain ⟨tables, htables, hids⟩ := hready
  cases target with
  | base => exact absurd rfl htarget
  | named name => exact ⟨tables, htables, hids⟩

section Selections

variable (hbase : env.Readable s.database .base) (hready : env.Readable s.database target)
  (htarget : target ≠ .base)

include hbase hready htarget

/-- A selection puts what its statement finds into its target. -/
theorem wp_select_of_idsMatching [RegexLibrary]
    (hg : env.Readable s.database g) {p : Predicate} {t : Table}
    {ids : List Value} (ht : s.database.find? (env.schema.annotationTable e) = some t)
    (htable : env.restriction? g e = .ok table?)
    (hruns : p.columnsIn t.names = [] → p.operator = .notEqual)
    (hids : env.idsMatching s.database e table? p (p.columnsIn t.names) = .ok ids) :
    (env.select e target g (some p)).wp (fun _ s' => ∃ tables, env.writable target = .ok tables ∧
      s.database.insertColumn (tables.part e) env.schema.idColumn (Value.groups ids) =
        .ok s'.database) s := by
  obtain ⟨tables, htables, hwritten⟩ := exists_writable hready htarget
  obtain ⟨subjects, hsubjects, _⟩ := hg
  obtain ⟨target', htarget', hhas⟩ := hwritten e
  obtain ⟨db, hdb⟩ := Database.exists_insertColumn htarget' hhas (Value.groups ids)
  unfold select
  refine .bind (.ofExcept htables (.bind (.ofExcept hsubjects (.bind (.ofExcept htable ?_)))))
  refine .bind (wp_annotationColumns hbase fun t' ht' => ?_)
  obtain rfl : t = t' := Option.some.inj (ht.symm.trans ht')
  have hstops : ¬ (((p.columnsIn t.names).isEmpty && decide (p.operator ≠ .notEqual)) = true) := by
    simpa using hruns
  rw [if_neg hstops]
  exact .update (by simp only [hids, ok_bind, pure_eq_ok, hdb]) ⟨tables, htables, hdb⟩

theorem wp_select_of_blank [RegexLibrary]
    (hblank : env.Blank s.database e key) (hg : env.Readable s.database g)
    {p : Predicate} (hwildcard : p.isWildcard = false) (hkey : p.key = key)
    (hoperator : p.operator ≠ .notEqual)
    (hdepth : ∀ t, s.database.find? (env.schema.annotationTable e) = some t →
      Sql.selectDepth env.schema g (p.columnsIn t.names) ≤ Sql.depthLimit)
    (hpattern : p.operator = .like → p.value.utf8ByteSize ≤ Sql.patternLimit) :
    (env.select e target g (some p)).wp (fun _ s' => s.database.Same s'.database) s := by
  obtain ⟨table?, htable, hrestricts⟩ := hg.restriction? e
  obtain ⟨t, ht, hid⟩ := hbase.annotations e
  by_cases hempty : p.columnsIn t.names = []
  · -- without a column no statement is run
    obtain ⟨tables, htables, _⟩ := exists_writable hready htarget
    obtain ⟨subjects, hsubjects, _⟩ := hg
    unfold select
    refine .bind (.ofExcept htables (.bind (.ofExcept hsubjects (.bind (.ofExcept htable ?_)))))
    refine .bind (wp_annotationColumns hbase fun t' ht' => ?_)
    obtain rfl : t = t' := Option.some.inj (ht.symm.trans ht')
    rw [if_pos (by simp [hempty, hoperator])]
    exact .pure fun _ => rfl
  · have hselected : p.filterRows env.schema t (p.columnsIn t.names) t.rows = .ok [] := by
      refine p.exists_filterRows_of_blank (fun column hcolumn => ?_) hpattern
      simp only [Predicate.columnsIn, hwildcard, Bool.false_eq_true, if_false] at hcolumn
      obtain ⟨hmem, heq⟩ := List.mem_filter.mp hcolumn
      obtain rfl : column = key := (of_decide_eq_true heq).trans hkey
      exact hblank t ht (by simpa [Table.has] using hmem)
    obtain ⟨kept, hkept⟩ := exists_restrict (t := { t with rows := [] }) hid hrestricts
    obtain rfl : kept = [] :=
      List.eq_nil_iff_forall_not_mem.mpr fun r hr => absurd (mem_of_restrict hkept hr) (by simp)
    have hids := idsMatching_of_restrict ht hid htable (hdepth t ht)
      ((if_neg (by simpa using hempty)).trans hselected) hkept
    refine (wp_select_of_idsMatching hbase hready htarget hg ht htable (fun hnone => absurd hnone
      hempty) hids).mono fun _ _ hadded => ?_
    obtain ⟨_, _, hadded⟩ := hadded
    exact Database.same_of_insertColumn_nil (by simpa using hadded)

omit hready htarget in
/-- Among the vertices of a table none carries the key. -/
theorem wp_carriers_of_blank (hblank : env.Blank s.database .vertex key) {keys : List String}
    (hkey : key ∈ keys) {table : String} (hids : ∃ c, env.schema.ids s.database table = .ok c)
    (hdepth : env.HasColumns s.database .vertex keys →
      Sql.presenceDepth keys.length ≤ Sql.depthLimit) :
    (env.carriers table keys).wp (fun found s' => s' = s ∧
      ∀ ids ∈ found, ids s.database = .ok [] ∧ env.HasColumns s.database .vertex keys) s := by
  have hkeys : ¬ (keys.isEmpty = true) := by
    rw [List.isEmpty_iff]
    rintro rfl
    cases hkey
  unfold carriers
  rw [if_neg hkeys]
  refine .bind (wp_annotationColumns hbase fun t ht => ?_)
  by_cases hall : keys.all t.names.contains = true
  · rw [if_neg (by simpa using hall)]
    have hhas : env.HasColumns s.database .vertex keys := by
      intro t' ht' column hcolumn
      obtain rfl : t = t' := Option.some.inj (ht.symm.trans ht')
      exact List.all_eq_true.mp hall column hcolumn
    obtain ⟨rows, hrows⟩ := exists_readRows (e := .vertex) hbase
      (show ∀ table' ∈ some table, ∃ c, env.schema.ids s.database table' = .ok c by
        simpa using hids) hhas
    have hnone : (rows.filter fun r => keys.all fun key => r.get key ≠ .null) = [] := by
      rw [List.filter_eq_nil_iff]
      intro r hr hcarries
      have hcell := List.all_eq_true.mp hcarries key hkey
      simp [hblank.of_scope hrows hkey r hr] at hcell
    refine .pure ⟨rfl, fun ids hin => ⟨?_, hhas⟩⟩
    obtain rfl := Option.some.inj hin
    simp only [Nat.not_lt.mpr (hdepth hhas), if_false, hrows, ok_bind, hnone]
    simp
  · rw [if_pos (by simpa using hall)]
    exact .pure ⟨rfl, by simp⟩

theorem wp_selectCarriers_of_blank (hblank : env.Blank s.database .vertex key)
    (hg : env.Readable s.database g) {keys : List String} (hkey : key ∈ keys)
    (hdepth : env.HasColumns s.database .vertex keys →
      Sql.presenceDepth keys.length ≤ Sql.depthLimit) :
    (env.selectCarriers target g keys).wp (fun _ s' => s.database.Same s'.database) s := by
  obtain ⟨tables, htables, hids⟩ := exists_writable hready htarget
  obtain ⟨subjects, hsubjects, hlisted⟩ := hg
  obtain ⟨t, ht, hhas⟩ := hlisted .vertex
  unfold selectCarriers
  refine .bind (.ofExcept htables (.bind (.ofExcept hsubjects (.bind ?_))))
  refine (wp_carriers_of_blank hbase hblank hkey ⟨_, Schema.ids_of_find? ht hhas⟩ hdepth).mono
    fun found s' hfound => ?_
  obtain ⟨rfl, hnone⟩ := hfound
  cases found with
  | none => exact .pure fun _ => rfl
  | some ids =>
    obtain ⟨target', htarget', hid⟩ := hids .vertex
    exact wp_insertNothing htarget' hid (hnone ids rfl).1

/-- With no vertex on the left, there are no pairs. -/
theorem wp_insertMatched_of_nil (hcan : s.CanScratch) (request : Nat) (right : Cells)
    {keys : List String}
    (hhas : env.HasColumns s.database .vertex keys)
    (hdepth : Sql.agreementDepth env.schema keys ≤ Sql.depthLimit) :
    Program.wp (do
        Program.createScratch request "pairs"
        Program.createScratch request "matched"
        let pairs ← Program.query fun db => env.agreeing db (env.schema.scratchIds []) right keys
        let target ← env.writable target
        env.schema.insertNewIds target.vertices fun _ =>
          return env.schema.scratchIds (pairs.map (·.1) ++ pairs.map (·.2)))
      (fun _ s' => s.database.Same s'.database) s := by
  obtain ⟨tables, htables, hids⟩ := exists_writable hready htarget
  obtain ⟨target', htarget', hid⟩ := hids .vertex
  obtain ⟨t, ht, hidColumn⟩ := hbase.annotations .vertex
  have hagreeing : env.agreeing s.database (env.schema.scratchIds []) right keys = .ok [] := by
    have htable : s.database.tableWith env.schema.vertexTable (env.schema.idColumn :: keys) = .ok t := by
      refine Database.tableWith_of_find? ht fun column hcolumn => ?_
      obtain rfl | hcolumn := List.mem_cons.mp hcolumn
      · exact hidColumn
      · exact hhas t ht column hcolumn
    have hnone : t.rowsWithin env.schema.idColumn (env.schema.scratchIds []) = [] := by
      simp [Table.rowsWithin, Schema.scratchIds, Cells.ofValues, Value.memberOf, Value.isIn,
        Truth.selects]
    simp [agreeing, Nat.not_lt.mpr hdepth, htable, hnone]
  refine .bind (.createScratch hcan (by decide) fun s₁ hs₁ => ?_)
  refine .bind (.createScratch (hs₁.canScratch hcan) (by decide) fun s₂ hs₂ => ?_)
  have hdatabase : s₂.database = s.database := (hs₁.trans hs₂).database
  refine .bind (.query (a := []) (by rw [hdatabase, hagreeing]) (.bind (.ofExcept htables ?_)))
  rw [← hdatabase] at htarget' ⊢
  refine wp_insertNothing htarget' hid ?_
  have hpresent : env.schema.ids s₂.database tables.vertices = _ := Schema.ids_of_find? htarget' hid
  simp [hpresent, Schema.scratchIds, Cells.ofValues, Cells.without]

/-- Nothing is put into the target of a match if nothing carries one of its keys. -/
theorem wp_matchVertices_of_blank (hcan : s.CanScratch)
    (hblank : env.Blank s.database .vertex key) {lhs rhs : GraphRef}
    (hlhs : env.Readable s.database lhs) (hrhs : env.Readable s.database rhs) {keys : List String}
    (hkey : key ∈ keys)
    (hdepth : env.HasColumns s.database .vertex keys →
      Sql.presenceDepth keys.length ≤ Sql.depthLimit ∧
        Sql.agreementDepth env.schema keys ≤ Sql.depthLimit) :
    (env.matchVertices target lhs rhs keys).wp (fun _ s' => s.database.Same s'.database) s := by
  obtain ⟨tables, htables, _⟩ := exists_writable hready htarget
  obtain ⟨lefts, hlefts, hleftIds⟩ := hlhs
  obtain ⟨rights, hrights, hrightIds⟩ := hrhs
  obtain ⟨left, hleft, hleftHas⟩ := hleftIds .vertex
  obtain ⟨right, hright, hrightHas⟩ := hrightIds .vertex
  unfold matchVertices
  refine .bind (.ofExcept htables (.withScratch fun request s₁ hs₁ => ?_))
  refine .bind (.createScratch (hs₁.canScratch hcan) (by decide) fun s₂ hs₂ => ?_)
  have hsame₂ := hs₁.trans hs₂
  refine .bind (.createScratch (hsame₂.canScratch hcan) (by decide) fun s₃ hs₃ => ?_)
  have hsame₃ := hsame₂.trans hs₃
  -- scratch tables aside, nothing has happened so far
  have hdatabase := hsame₃.database
  have hcan₃ := hsame₃.canScratch hcan
  rw [← hdatabase] at hbase hready hblank hleft hright hdepth ⊢
  have hpresence (hhas : env.HasColumns s₃.database .vertex keys) := (hdepth hhas).1
  have hfrom {s' : Store} (hs' : s₃.database.Same s'.database) :
      ∀ s'', s'.SameData s'' → s₃.database.Same s''.database :=
    fun s'' hs'' => hs''.database ▸ hs'
  refine .bind (.ofExcept hlefts (.bind ((wp_carriers_of_blank hbase hblank hkey
    ⟨_, Schema.ids_of_find? hleft hleftHas⟩ hpresence).mono fun found s' hfound => ?_)))
  obtain ⟨rfl, hnone⟩ := hfound
  cases found with
  | none => exact .pure (hfrom fun _ => rfl)
  | some leftIds =>
    obtain ⟨hleftIds, hhas⟩ := hnone leftIds rfl
    refine .bind (.query hleftIds (.bind (.ofExcept hrights (.bind ?_))))
    refine (wp_carriers_of_blank hbase hblank hkey ⟨_, Schema.ids_of_find? hright hrightHas⟩
      hpresence).mono fun found s' hfound => ?_
    obtain ⟨rfl, hnone⟩ := hfound
    have hrest (right : Cells) := (wp_insertMatched_of_nil hbase hready htarget hcan₃
      request right hhas (hdepth hhas).2).mono fun _ _ => hfrom
    cases found with
    | none => exact .bind (.pure (hrest _))
    | some rightIds => exact .bind (.query (hnone rightIds rfl).1 (.bind (.pure (hrest _))))

end Selections

end Environment
end Provenance
