-- SUMMARY: Annotation tables that have grown by a column of nulls, and what does not see it.
import Provenance.Proofs.KeyedReads

/-!
# One more column

An annotation table may have grown by a column that is null in every row. All other columns are read as
before. So whatever reads ids and ends of edges only, and whatever copies ids into tables, does not see
that the table has grown, and neither do instructions that read the annotations of the other elements.
-/
namespace Provenance

open Program

/-! ## Columns and rows -/

/-- The columns are the same but for one more, somewhere among them. -/
structure Column.Added (key : String) (columns columns' : List Column) : Prop where
  fresh : key ∉ columns.map (·.name)
  split : ∃ before after c,
    c.name = key ∧ columns = before ++ after ∧ columns' = before ++ c :: after

namespace Column.Added

variable {key name : String} {columns columns' : List Column}

theorem mem_key (h : Added key columns columns') : key ∈ columns'.map (·.name) := by
  obtain ⟨before, after, c, hc, _, rfl⟩ := h.split
  simp [hc]

theorem mem_iff (h : Added key columns columns') (hname : name ≠ key) :
    name ∈ columns'.map (·.name) ↔ name ∈ columns.map (·.name) := by
  obtain ⟨before, after, c, rfl, rfl, rfl⟩ := h.split
  simp [hname]

theorem sublist (h : Added key columns columns') :
    (columns.map (·.name)).Sublist (columns'.map (·.name)) := by
  obtain ⟨before, after, c, _, rfl, rfl⟩ := h.split
  exact ((List.Sublist.refl before).append (List.sublist_cons_self c after)).map _

/-- The same columns are there, the key aside. -/
theorem forall_mem_iff (h : Added key columns columns') {names : List String} (hkey : key ∉ names) :
    (∀ name ∈ names, name ∈ columns.map (·.name)) ↔
      ∀ name ∈ names, name ∈ columns'.map (·.name) :=
  forall₂_congr fun _ hname => (h.mem_iff fun heq => hkey (heq ▸ hname)).symm

/-- What leaves out the key leaves out the new column. -/
theorem filter_eq (h : Added key columns columns') {f : String → Bool} (hf : f key = false) :
    (columns'.map (·.name)).filter f = (columns.map (·.name)).filter f := by
  obtain ⟨before, after, c, rfl, rfl, rfl⟩ := h.split
  simp [hf]

/-- The new column is the only one of its name. -/
theorem filter_key (h : Added key columns columns') :
    (columns'.map (·.name)).filter (· = key) = [key] := by
  have hfresh := h.fresh
  obtain ⟨before, after, c, rfl, rfl, rfl⟩ := h.split
  rw [List.map_append, List.mem_append, not_or] at hfresh
  have hnone {names : List String} (hnames : c.name ∉ names) : names.filter (· = c.name) = [] :=
    List.filter_eq_nil_iff.mpr fun name hname heq => hnames (of_decide_eq_true heq ▸ hname)
  rw [List.map_append, List.map_cons, List.filter_append, hnone hfresh.1,
    List.filter_cons_of_pos (by simp), hnone hfresh.2, List.nil_append]

/-- What is made of all columns is the same if nothing is made of the new one. -/
theorem filterMap_eq {α : Type} (h : Added key columns columns') {f f' : String → Option α}
    (hf : ∀ name, name ≠ key → f name = f' name) (hkey : f' key = none) :
    (columns.map (·.name)).filterMap f = (columns'.map (·.name)).filterMap f' := by
  have hcongr : (columns.map (·.name)).filterMap f = (columns.map (·.name)).filterMap f' :=
    List.filterMap_congr fun name hname => hf name fun heq => h.fresh (heq ▸ hname)
  rw [hcongr]
  obtain ⟨before, after, c, rfl, rfl, rfl⟩ := h.split
  simp [hkey]

theorem affinityOf_eq (h : Added key columns columns') (hname : name ≠ key) :
    affinityOf columns' name = affinityOf columns name := by
  obtain ⟨before, after, c, rfl, rfl, rfl⟩ := h.split
  simp [affinityOf, List.find?_append, Ne.symm hname]

end Column.Added

/-- The row is the same but for one more cell, which is null. -/
structure Row.Grown (key : String) (r r' : Row) : Prop where
  others : ∀ name, name ≠ key → r'.get name = r.get name
  blank : r'.get key = .null

namespace Row.Grown

variable {key : String} {columns columns' : List Column} {rows rows' : List Row}

/-- New rows of the same cells, none of them in the new column. -/
theorem ofCells (h : Column.Added key columns columns') {cell : String → Value}
    (hcell : cell key = .null) :
    Row.Grown key (Row.ofCells columns cell) (Row.ofCells columns' cell) where
  others name hname := by
    by_cases hmem : name ∈ columns.map (·.name)
    · rw [Row.get_ofCells hmem, Row.get_ofCells ((h.mem_iff hname).mpr hmem), h.affinityOf_eq hname]
    · rw [Row.get_ofCells_of_notMem hmem, Row.get_ofCells_of_notMem (mt (h.mem_iff hname).mp hmem)]
  blank := by rw [Row.get_ofCells h.mem_key, hcell, Affinity.store_null]

theorem blank_of_mem (h : List.Forall₂ (Row.Grown key) rows rows') :
    ∀ r ∈ rows', r.get key = .null := by
  induction h with
  | nil => simp
  | cons hr _ ih => exact List.forall_mem_cons.mpr ⟨hr.blank, ih⟩

theorem map_eq {α : Type} {f f' : Row → α} (h : List.Forall₂ (Row.Grown key) rows rows')
    (hf : ∀ r r', Row.Grown key r r' → f r = f' r') : rows.map f = rows'.map f' := by
  induction h with
  | nil => rfl
  | cons hr _ ih => rw [List.map_cons, List.map_cons, hf _ _ hr, ih]

theorem get_eq {name : String} (h : List.Forall₂ (Row.Grown key) rows rows') (hname : name ≠ key) :
    rows.map (·.get name) = rows'.map (·.get name) :=
  map_eq h fun _ _ hr => (hr.others name hname).symm

theorem filter {f f' : Row → Bool} (h : List.Forall₂ (Row.Grown key) rows rows')
    (hf : ∀ r r', Row.Grown key r r' → f r = f' r') :
    List.Forall₂ (Row.Grown key) (rows.filter f) (rows'.filter f') :=
  List.rel_filter (fun r r' hr => by simp only [hf r r' hr]) h

end Row.Grown

/-! ## Tables -/

/-- From some columns to others, the table has grown by one that is null in every row. -/
structure Table.Grown (key : String) (columns columns' : List Column) (t t' : Table) : Prop where
  columns : t.columns = columns
  columns' : t'.columns = columns'
  rows : List.Forall₂ (Row.Grown key) t.rows t'.rows

namespace Table.Grown

variable {key name : String} {columns columns' : List Column} {t t' : Table}

theorem withRows (h : Table.Grown key columns columns' t t') {rows rows' : List Row}
    (hrows : List.Forall₂ (Row.Grown key) rows rows') :
    Table.Grown key columns columns' { t with rows } { t' with rows := rows' } :=
  ⟨h.columns, h.columns', hrows⟩

variable (h : Table.Grown key columns columns' t t') (hadded : Column.Added key columns columns')

include h hadded

theorem has_eq (hname : name ≠ key) : t'.has name = t.has name := by
  rw [Bool.eq_iff_iff, Table.has, Table.has, List.contains_iff_mem, List.contains_iff_mem, Table.names,
    Table.names, h.columns, h.columns', hadded.mem_iff hname]

theorem affinity_eq (hname : name ≠ key) : t'.affinity name = t.affinity name := by
  rw [Table.affinity, Table.affinity, h.columns, h.columns', hadded.affinityOf_eq hname]

omit hadded in
theorem values_eq (hname : name ≠ key) : t.values name = t'.values name :=
  Row.Grown.get_eq h.rows hname

theorem cells_eq (hname : name ≠ key) : t.cells name = t'.cells name := by
  rw [Table.cells, Table.cells, h.affinity_eq hadded hname, h.values_eq hname]

/-- The rows of some ids, or of other cells that there have been before. -/
theorem rowsWithin (hname : name ≠ key) (c : Cells) :
    List.Forall₂ (Row.Grown key) (t.rowsWithin name c) (t'.rowsWithin name c) := by
  unfold Table.rowsWithin
  rw [h.affinity_eq hadded hname]
  exact Row.Grown.filter h.rows fun r r' hr => by rw [hr.others name hname]

theorem append (hname : name ≠ key) (vs : List Value) :
    Table.Grown key columns columns' (t.append (t.column name vs)) (t'.append (t'.column name vs)) := by
  refine ⟨h.columns, h.columns', ?_⟩
  have hnew : List.Forall₂ (Row.Grown key) (t.column name vs) (t'.column name vs) := by
    unfold Table.column
    rw [List.forall₂_map_left_iff, List.forall₂_map_right_iff, List.forall₂_same]
    intro v _
    unfold Table.row
    rw [h.columns, h.columns']
    refine .ofCells hadded ?_
    have hbeq : (key == name) = false := by simpa using hname.symm
    simp [List.lookup_cons, hbeq]
  exact List.rel_append h.rows hnew

end Table.Grown

/-! ## Databases -/

/-- One table of the database has grown, and all others are the same. -/
structure Database.Grown (table key : String) (columns columns' : List Column) (db db' : Database) :
    Prop where
  others : ∀ name, Name.folded name ≠ Name.folded table → db.find? name = db'.find? name
  grown : ∃ t t', db.find? table = some t ∧ db'.find? table = some t' ∧
    t.Grown key columns columns' t'

namespace Database.Grown

variable {table key name : String} {columns columns' : List Column} {db db' : Database}
  {names names' : List String}

theorem find?_of_folded (h : Database.Grown table key columns columns' db db')
    (hname : Name.folded name = Name.folded table) :
    ∃ t t', db.find? name = some t ∧ db'.find? name = some t' ∧ t.Grown key columns columns' t' := by
  have hgrown := h.grown
  simpa only [Database.find?, hname] using hgrown

/-- Other tables may be put in the place of tables that are the same. -/
theorem put (h : Database.Grown table key columns columns' db db')
    (hname : Name.folded name ≠ Name.folded table) (t : Table) :
    Database.Grown table key columns columns' (db.put name t) (db'.put name t) := by
  obtain ⟨t₀, t₀', ht₀, ht₀', hgrown⟩ := h.grown
  refine ⟨fun other hother => ?_, t₀, t₀', ?_, ?_, hgrown⟩
  · rw [find?_put, find?_put, h.others other hother]
  · rw [find?_put, if_neg hname.symm, ht₀]
  · rw [find?_put, if_neg hname.symm, ht₀']

/-- The table that has grown may be replaced by another that has. -/
theorem putGrown (h : Database.Grown table key columns columns' db db')
    (hname : Name.folded name = Name.folded table) {t t' : Table}
    (hgrown : t.Grown key columns columns' t') :
    Database.Grown table key columns columns' (db.put name t) (db'.put name t') := by
  refine ⟨fun other hother => ?_, t, t', ?_, ?_, hgrown⟩
  · have hne : Name.folded other ≠ Name.folded name := hname ▸ hother
    rw [find?_put, find?_put, if_neg hne, if_neg hne, h.others other hother]
  · rw [find?_put, if_pos hname.symm]
  · rw [find?_put, if_pos hname.symm]

theorem drop (h : Database.Grown table key columns columns' db db')
    (hname : Name.folded name ≠ Name.folded table) :
    Database.Grown table key columns columns' (db.drop name) (db'.drop name) := by
  obtain ⟨t, t', ht, ht', hgrown⟩ := h.grown
  refine ⟨fun other hother => ?_, t, t', ?_, ?_, hgrown⟩
  · rw [find?_drop, find?_drop, h.others other hother]
  · rw [find?_drop, if_neg hname.symm, ht]
  · rw [find?_drop, if_neg hname.symm, ht']

variable (h : Database.Grown table key columns columns' db db')
  (hadded : Column.Added key columns columns')

include h

omit hadded in
theorem table_alike (hname : Name.folded name = Name.folded table) :
    Except.Alike (Table.Grown key columns columns') (db.table name) (db'.table name) := by
  obtain ⟨t, t', ht, ht', hgrown⟩ := h.find?_of_folded hname
  simp only [Database.table, ht, ht']
  exact .ok hgrown

omit hadded in
/-- Columns are looked for, in vain in both or in neither. -/
theorem tableWith_alike (hname : Name.folded name = Name.folded table)
    (hnames : (∀ column ∈ names, column ∈ columns.map (·.name)) ↔
      ∀ column ∈ names', column ∈ columns'.map (·.name)) :
    Except.Alike (Table.Grown key columns columns') (db.tableWith name names)
      (db'.tableWith name names') := by
  refine .bind (h.table_alike hname) fun t t' _ _ hgrown => ?_
  have hall : names.all t.has = names'.all t'.has := by
    rw [Bool.eq_iff_iff, List.all_eq_true, List.all_eq_true]
    simp only [Table.has, List.contains_iff_mem, Table.names, hgrown.columns, hgrown.columns', hnames]
  rw [hall]
  split
  · exact .ok hgrown
  · exact .error _

include hadded

theorem cells_eq {column : String} (hcolumn : column ≠ key) :
    db.cells name column = db'.cells name column := by
  unfold Database.cells
  by_cases hname : Name.folded name = Name.folded table
  · apply Except.Alike.eq
    refine .bind (h.tableWith_alike hname (hadded.forall_mem_iff (by simpa using hcolumn.symm)))
      fun t t' _ _ hgrown => ?_
    exact .ok (hgrown.cells_eq hadded hcolumn)
  · simp only [Database.tableWith, Database.table, h.others name hname]

/-- Rows that are added to the table that has grown leave it grown. -/
theorem insertColumn_alike {column : String} (hcolumn : column ≠ key) (vs : List Value) :
    Except.Alike (Database.Grown table key columns columns') (db.insertColumn name column vs)
      (db'.insertColumn name column vs) := by
  unfold Database.insertColumn
  by_cases hname : Name.folded name = Name.folded table
  · refine .bind (h.tableWith_alike hname (hadded.forall_mem_iff (by simpa using hcolumn.symm)))
      fun t t' _ _ hgrown => ?_
    exact .ok (h.putGrown hname (hgrown.append hadded hcolumn vs))
  · simp only [Database.tableWith, Database.table, h.others name hname]
    refine .bind (.of_eq rfl) fun t t' _ _ heq => ?_
    subst heq
    exact .ok (h.put hname _)

end Database.Grown

/-- After the table that has grown was made anew, all tables are the same. -/
def Database.GrownOrMade (table key : String) (columns columns' : List Column) (db db' : Database) :
    Prop :=
  Database.Grown table key columns columns' db db' ∨ ∀ name, db.find? name = db'.find? name

/-- Any table can be made anew, that which has grown too. -/
theorem Database.remade_grownOrMade (table key : String) (columns columns' : List Column)
    (name : String) : Database.Remade (Database.GrownOrMade table key columns columns') name where
  drop {db db'} hR := by
    obtain h | h := hR
    · by_cases hname : Name.folded name = Name.folded table
      · refine .inr fun other => ?_
        rw [find?_drop, find?_drop]
        split
        · rfl
        · next hother => exact h.others other (hname ▸ hother)
      · exact .inl (h.drop hname)
    · exact .inr fun other => by rw [find?_drop, find?_drop, h other]
  create {db db'} made hR := by
    have hfree : (db.find? name).isSome = (db'.find? name).isSome := by
      obtain h | h := hR
      · by_cases hname : Name.folded name = Name.folded table
        · obtain ⟨t, t', ht, ht', _⟩ := h.find?_of_folded hname
          rw [ht, ht']
          rfl
        · rw [h.others name hname]
      · rw [h name]
    unfold Database.create
    dsimp only
    rw [← hfree]
    split
    · exact .error _
    · next hgivable =>
      split
      · exact .error _
      · split
        · exact .error _
        · refine .ok ?_
          obtain h | h := hR
          · refine .inl (h.put (fun hname => ?_) _)
            obtain ⟨t, t', ht, _⟩ := h.find?_of_folded hname
            simp [ht] at hgivable
          · exact .inr fun other => by rw [find?_put, find?_put, h other]

/-! ## Annotations -/

/-- The columns of an annotation table that hold no annotations. -/
def Schema.ownColumns (schema : Schema) : Element → List String
  | .vertex => [schema.idColumn]
  | .edge => schema.reserved

@[simp] theorem Schema.idColumn_mem_ownColumns (schema : Schema) (e : Element) :
    schema.idColumn ∈ schema.ownColumns e := by
  cases e <;> simp [ownColumns]

/-- The annotations of both elements are in one table. -/
def Schema.OneTable (schema : Schema) (e e' : Element) : Prop :=
  Name.folded (schema.annotationTable e') = Name.folded (schema.annotationTable e)

namespace Environment

/-- The annotation table of an element gets a new key: it has all the columns that it must have, and the
key is the name of none of them. -/
structure GetsKey (env : Environment) (e : Element) (key : String) (columns columns' : List Column) :
    Prop where
  added : Column.Added key columns columns'
  own : ∀ e', env.schema.OneTable e e' → ∀ name ∈ env.schema.ownColumns e',
    name ∈ columns.map (·.name)

/-- The annotations of an element have grown by a key that nothing has a value for. -/
abbrev Grown (env : Environment) (e : Element) (key : String) (columns columns' : List Column) :
    Database → Database → Prop :=
  Database.Grown (env.schema.annotationTable e) key columns columns'

variable {env : Environment} {e e' : Element} {key : String} {columns columns' : List Column}
  {db db' : Database}

theorem GetsKey.own_ne (h : env.GetsKey e key columns columns') (hone : env.schema.OneTable e e')
    {name : String} (hname : name ∈ env.schema.ownColumns e') : name ≠ key := by
  rintro rfl
  exact h.added.fresh (h.own e' hone name hname)

theorem GetsKey.idColumn_ne (h : env.GetsKey e key columns columns') :
    env.schema.idColumn ≠ key :=
  h.own_ne rfl (env.schema.idColumn_mem_ownColumns e)

namespace Grown

variable (h : env.GetsKey e key columns columns') (hR : env.Grown e key columns columns' db db')

include h hR

theorem ids_eq (table : String) : env.schema.ids db table = env.schema.ids db' table :=
  hR.cells_eq h.added h.idColumn_ne

theorem restrict_alike {t t' : Table} (hgrown : t.Grown key columns columns' t')
    (table? : Option String) :
    Except.Alike (List.Forall₂ (Row.Grown key)) (env.restrict db t table?)
      (env.restrict db' t' table?) := by
  cases table? with
  | none => exact .ok hgrown.rows
  | some table =>
    unfold restrict
    dsimp only
    rw [hgrown.has_eq h.added h.idColumn_ne, ids_eq h hR]
    refine .guard Iff.rfl fun _ => .bind (.of_eq rfl) fun c _ _ _ hc => ?_
    subst hc
    exact .ok (hgrown.rowsWithin h.added h.idColumn_ne c)

/-- The rows in the scope of a graph are the same but for the cells of the new column. -/
theorem rowsInScope_alike (hone : env.schema.OneTable e e') {names names' : List String}
    (hnames : (∀ column ∈ names, column ∈ columns.map (·.name)) ↔
      ∀ column ∈ names', column ∈ columns'.map (·.name)) (table? : Option String) :
    Except.Alike (List.Forall₂ (Row.Grown key)) (env.rowsInScope db e' table? names)
      (env.rowsInScope db' e' table? names') :=
  .bind (hR.tableWith_alike hone hnames) fun _ _ _ _ hgrown => hR.restrict_alike h hgrown table?

end Grown

/-- Under one name in both runs, and with the same restrictions. -/
abbrev SameName (_ : Element) (table table' : String) : Prop := table = table'

abbrev SameScope (_ : Element) (table? table?' : Option String) : Prop := table? = table?'

theorem counterparts_refl (env : Environment) (g : GraphRef) :
    env.Counterparts SameName SameScope g g :=
  ⟨(Except.Alike.of_eq rfl).mono fun _ _ h e => by rw [h],
    fun _ => (Except.Alike.of_eq rfl).mono fun _ _ => id⟩

/-- The other annotation table is the same. -/
theorem sameAnnotations_of_grown {R : Database → Database → Prop}
    (h : env.GetsKey e key columns columns')
    (hgrown : ∀ {db db'}, R db db' → env.Grown e key columns columns' db db')
    (hother : ¬ env.schema.OneTable e e') :
    env.SameAnnotations R (SameName e') (SameScope e') e' (fun _ => True) where
  part h := congrArg some h
  find? hR := (hgrown hR).others _ hother
  columns _ _ := trivial
  restrict {db db' table? table?' t rows} hR hS _ _ := by
    subst hS
    cases table? with
    | none => rfl
    | some table => simp only [restrict, (hgrown hR).ids_eq h]

/-- Ids and ends of edges are read as before. -/
theorem reflects_of_grown (h : env.GetsKey e key columns columns') :
    env.Reflects (env.Grown e key columns columns') (fun _ => False) SameName SameScope where
  ordered := Value.ordered_of_texts fun _ hv => hv.elim
  stored _ hv := hv.elim
  whole := rfl
  ids hR hT := by
    subst hT
    exact (Except.Alike.of_eq (hR.ids_eq h _)).mono fun _ _ => .of_eq
  size {db db' _ table table'} hR hT := by
    subst hT
    by_cases hname : Name.folded table = Name.folded (env.schema.annotationTable e)
    · exact (hR.table_alike hname).mono fun _ _ hgrown => hgrown.rows.length_eq
    · simp only [Database.table, hR.others table hname]
      exact (Except.Alike.of_eq rfl).mono fun _ _ heq => by rw [heq]
  annotated _ hR := hR.ids_eq h _
  arcs {db db' table? table?'} hR hS := by
    by_cases hone : env.schema.OneTable e .edge
    · subst hS
      have hown {column : String} (hcolumn : column ∈ env.schema.reserved) : column ≠ key :=
        h.own_ne hone hcolumn
      apply Except.Alike.eq
      have hnames := h.added.forall_mem_iff fun hkey => hown hkey rfl
      refine .bind (hR.rowsInScope_alike h hone hnames table?)
        fun rows rows' _ _ hrows => .ok (Row.Grown.map_eq hrows fun r r' hr => ?_)
      dsimp only
      rw [hr.others _ (hown env.schema.idColumn_mem_reserved),
        hr.others _ (hown env.schema.childColumn_mem_reserved),
        hr.others _ (hown env.schema.parentColumn_mem_reserved)]
    · exact (sameAnnotations_of_grown h id hone).arcs_eq (S := SameScope) hR hS
  ends {db db' table table' column} hR hT hcolumn := by
    have heq : env.endpointsIn db table column = env.endpointsIn db' table' column := by
      by_cases hone : env.schema.OneTable e .edge
      · subst hT
        have hne : column ≠ key := h.own_ne hone (env.endpointColumns_subset_reserved hcolumn)
        apply Except.Alike.eq
        have hnames := h.added.forall_mem_iff (show key ∉ [column] by simpa using hne.symm)
        refine .bind (hR.tableWith_alike hone hnames) fun t t' _ _ hgrown => ?_
        refine .bind (hR.restrict_alike h hgrown (some table)) fun rows rows' _ _ hrows => .ok ?_
        exact (hgrown.withRows hrows).cells_eq h.added hne
      · exact (sameAnnotations_of_grown h id hone).endpointsIn_eq (T := SameName) hR hT column
    exact (Except.Alike.of_eq heq).mono fun _ _ hcells => ⟨hcells, fun _ _ hw => hw.elim⟩

/-- Ids are added to any table, also to that which has grown. -/
theorem takes_of_grown (h : env.GetsKey e key columns columns') (table : String) :
    env.Takes (env.Grown e key columns columns') table where
  ids hR := hR.ids_eq h table
  insert vs hR := hR.insertColumn_alike h.added h.idColumn_ne vs

/-- Any other table is the same in both. -/
theorem shared_of_grown {table : String}
    (hother : Name.folded table ≠ Name.folded (env.schema.annotationTable e)) :
    Database.Shared (env.Grown e key columns columns') table where
  find? hR := hR.others table hother
  put t hR := hR.put hother t
  drop hR := hR.drop hother

end Environment
end Provenance
