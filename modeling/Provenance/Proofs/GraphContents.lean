-- SUMMARY: The ids and edges that a graph holds, as searches see them.
import Provenance.Proofs.IdTables
import Provenance.Proofs.Search
import Provenance.Instruction.Walks

/-!
# What graphs hold

A graph holds the ids that its tables list. Its edges are the rows of the edge table whose ids it
holds, and searches see exactly these. A target is fresh when its tables are as they are made anew.
-/
namespace Provenance

/-- An edge as it stands in a row of the edge table. -/
def Schema.arcOf (schema : Schema) (r : Row) : Arc :=
  ⟨r.get schema.idColumn, r.get schema.childColumn, r.get schema.parentColumn⟩

@[simp] theorem Schema.idColumn_mem_reserved (schema : Schema) :
    schema.idColumn ∈ schema.reserved := by
  simp [reserved]

@[simp] theorem Schema.childColumn_mem_reserved (schema : Schema) :
    schema.childColumn ∈ schema.reserved := by
  simp [reserved]

@[simp] theorem Schema.parentColumn_mem_reserved (schema : Schema) :
    schema.parentColumn ∈ schema.reserved := by
  simp [reserved]

@[simp] theorem TablePair.part_vertex (tables : TablePair) :
    tables.part .vertex = tables.vertices := rfl

@[simp] theorem TablePair.part_edge (tables : TablePair) : tables.part .edge = tables.edges := rfl

theorem TablePair.forall_tables {tables : TablePair} {p : String → Prop} (h : ∀ e, p (tables.part e)) :
    ∀ name ∈ [tables.vertices, tables.edges], p name := by
  simp only [List.forall_mem_cons, List.not_mem_nil, false_imp_iff, implies_true, and_true]
  exact ⟨h .vertex, h .edge⟩

namespace Environment

theorem endpointColumns_subset_reserved (env : Environment) :
    env.endpointColumns .both ⊆ env.schema.reserved := by
  simp [endpointColumns]

/-- The graph has a table of ids, which lists these. -/
def Holds (env : Environment) (db : Database) (g : GraphRef) (e : Element) (vs : List Value) :
    Prop :=
  ∃ tables, env.resolve g = .ok tables ∧ env.schema.Lists db (tables.part e) vs

/-- The edge table keeps ids in its reserved columns, and no edge is without one of its own. -/
structure IsEdgeTable (env : Environment) (t : Table) : Prop where
  keeps : ∀ column ∈ env.schema.reserved, env.schema.KeepsIds t column
  ids : .null ∉ t.values env.schema.idColumn

def HasEdgeTable (env : Environment) (db : Database) : Prop :=
  ∃ t, db.find? env.schema.edgeTable = some t ∧ env.IsEdgeTable t

/-- The graph has the edge: some row of the edge table is this edge, and the graph holds its id. -/
def HasEdge (env : Environment) (db : Database) (g : GraphRef) (a : Arc) : Prop :=
  ∃ t es, db.find? env.schema.edgeTable = some t ∧ env.Holds db g .edge es ∧ a.id ∈ es ∧
    ∃ r ∈ t.rows, env.schema.arcOf r = a

variable {env : Environment} {db db' : Database} {g : GraphRef} {e : Element} {vs es : List Value}
  {t : Table} {a : Arc}

namespace Holds

theorem keeps (h : env.Holds db g e vs) : env.schema.idAffinity.Keeps vs := by
  obtain ⟨_, _, h⟩ := h
  exact h.keeps

theorem unique {vs' : List Value} (h : env.Holds db g e vs) (h' : env.Holds db g e vs') :
    vs = vs' := by
  obtain ⟨tables, hr, hl⟩ := h
  obtain ⟨tables', hr', hl'⟩ := h'
  obtain rfl : tables = tables' := by simpa [hr] using hr'
  exact hl.unique hl'

theorem of_same {names : List String} (h : env.Holds db g e vs)
    (hs : Database.SameBut names db db')
    (ho : ∀ tables, env.resolve g = .ok tables →
      ∀ name ∈ names, Name.folded (tables.part e) ≠ Name.folded name) : env.Holds db' g e vs := by
  obtain ⟨tables, hr, hl⟩ := h
  exact ⟨tables, hr, hl.of_same hs (ho tables hr)⟩

/-- What the base graph holds is not restricted, and what another does is by its table. -/
theorem restriction? (h : env.Holds db g e vs) :
    ∃ table?, env.restriction? g e = .ok table? ∧
      ((table? = none ∧ env.schema.Lists db (env.schema.annotationTable e) vs) ∨
        ∃ table, table? = some table ∧ env.schema.Lists db table vs) := by
  obtain ⟨tables, hr, hl⟩ := h
  cases g with
  | base =>
    obtain rfl : _ = tables := Except.ok.inj hr
    refine ⟨none, rfl, .inl ⟨rfl, ?_⟩⟩
    cases e <;> exact hl
  | named name =>
    refine ⟨some (tables.part e), ?_, .inr ⟨_, rfl, hl⟩⟩
    simp [Environment.restriction?, hr]

end Holds

theorem hasEdge_iff (ht : db.find? env.schema.edgeTable = some t) (hg : env.Holds db g .edge es) :
    env.HasEdge db g a ↔ a.id ∈ es ∧ ∃ r ∈ t.rows, env.schema.arcOf r = a := by
  constructor
  · rintro ⟨t', es', ht', hg', ha⟩
    obtain rfl : t = t' := by simpa [ht] using ht'
    obtain rfl := hg.unique hg'
    exact ha
  · exact fun ha => ⟨t, es, ht, hg, ha⟩

/-- The cells of an edge are in the form in which ids are kept. -/
theorem HasEdge.keeps (h : env.HasEdge db g a) (ht : env.HasEdgeTable db) :
    env.schema.idAffinity.Keeps [a.id, a.child, a.parent] := by
  obtain ⟨t, _, hfind, _, _, r, hr, rfl⟩ := h
  obtain ⟨t', hfind', ht⟩ := ht
  obtain rfl : t = t' := by simpa [hfind] using hfind'
  have hcell (column : String) (hc : column ∈ env.schema.reserved) :
      env.schema.idAffinity.store (r.get column) = r.get column :=
    (ht.keeps column hc).stored _ (List.mem_map_of_mem hr)
  intro v hv
  simp only [Schema.arcOf, List.mem_cons, List.not_mem_nil, or_false] at hv
  obtain rfl | rfl | rfl := hv <;> exact hcell _ (by simp)

theorem HasEdge.far_keeps (h : env.HasEdge db g a) (ht : env.HasEdgeTable db) (way : Way) :
    env.schema.idAffinity.store (a.far way) = a.far way := by
  have hkeeps := h.keeps ht
  cases way with
  | ancestor => exact hkeeps _ (by simp [Arc.far])
  | descendant => exact hkeeps _ (by simp [Arc.far])

theorem HasEdge.id_ne_null (h : env.HasEdge db g a) (ht : env.HasEdgeTable db) : a.id ≠ .null := by
  obtain ⟨t, _, hfind, _, _, r, hr, rfl⟩ := h
  obtain ⟨t', hfind', ht⟩ := ht
  obtain rfl : t = t' := by simpa [hfind] using hfind'
  exact fun hnull => ht.ids (hnull ▸ List.mem_map_of_mem hr)

/-- Walks lead to values in the form in which ids are kept. -/
theorem HasEdgeTable.keeps_of_within {E : Arc → Prop} {ways : List Way} {n : Nat} {v : Value}
    (ht : env.HasEdgeTable db) (hE : ∀ a, E a → env.HasEdge db g a)
    (hkeeps : env.schema.idAffinity.Keeps vs) (h : Within (LeadsAny E ways) (· ∈ vs) n v) :
    env.schema.idAffinity.store v = v := by
  apply h.induct hkeeps
  intro u v hs
  obtain ⟨way, _, a, ha, _, rfl, _⟩ := hs
  exact (hE a ha).far_keeps ht way

/-- A table of ids restricts the annotations to the rows whose ids it lists. -/
theorem rowsInScope_of_keeps (hfind : db.find? (env.schema.annotationTable e) = some t)
    (hid : env.schema.KeepsIds t env.schema.idColumn) {table : String}
    (hl : env.schema.Lists db table vs) {columns : List String}
    (hcolumns : ∀ column ∈ columns, t.has column = true) :
    env.rowsInScope db e (some table) columns =
      .ok (t.rows.filter fun r => (r.get env.schema.idColumn).memberOf vs) := by
  simp [rowsInScope, restrict, Database.tableWith_of_find? hfind hcolumns, hid.has, hl.ids,
    Table.rowsWithin_eq (c := ⟨env.schema.idAffinity, vs⟩) hid.affinity]

theorem rowsInScope_of_lists (hfind : db.find? env.schema.edgeTable = some t)
    (ht : env.IsEdgeTable t) {table : String} (hl : env.schema.Lists db table es)
    {columns : List String} (hcolumns : ∀ column ∈ columns, t.has column = true) :
    env.rowsInScope db .edge (some table) columns =
      .ok (t.rows.filter fun r => (r.get env.schema.idColumn).memberOf es) :=
  rowsInScope_of_keeps (e := .edge) hfind (ht.keeps _ env.schema.idColumn_mem_reserved) hl hcolumns

/-- The cells of an endpoint column in these rows are what is read of it. -/
theorem endpointsIn_of_lists (hfind : db.find? env.schema.edgeTable = some t)
    (ht : env.IsEdgeTable t) {table : String} (hl : env.schema.Lists db table es) {column : String}
    (hcolumn : column ∈ env.schema.reserved) :
    env.endpointsIn db table column = .ok ⟨env.schema.idAffinity,
      (t.rows.filter fun r => (r.get env.schema.idColumn).memberOf es).map (·.get column)⟩ := by
  have hid := ht.keeps _ env.schema.idColumn_mem_reserved
  have hkeeps := ht.keeps column hcolumn
  have htable : db.tableWith env.schema.edgeTable [column] = .ok t :=
    Database.tableWith_of_find? hfind (by simpa using hkeeps.has)
  have haffinity : Table.affinity ⟨t.columns, t.rows.filter fun r =>
      (r.get env.schema.idColumn).memberOf es⟩ column = env.schema.idAffinity := hkeeps.affinity
  simp [endpointsIn, htable, restrict, hid.has, hl.ids, Table.cells, Table.values, haffinity,
    Table.rowsWithin_eq (c := ⟨env.schema.idAffinity, es⟩) hid.affinity]

/-- No edge is without an id, so those in the scope of a graph are those whose ids it holds. -/
theorem IsEdgeTable.mem_filter (ht : env.IsEdgeTable t) {r : Row} :
    (r ∈ t.rows.filter fun r => (r.get env.schema.idColumn).memberOf es) ↔
      r ∈ t.rows ∧ r.get env.schema.idColumn ∈ es := by
  have hnull (hrow : r ∈ t.rows) : r.get env.schema.idColumn ≠ .null :=
    fun hn => ht.ids (hn ▸ List.mem_map_of_mem hrow)
  simp only [List.mem_filter, Value.memberOf_iff]
  exact ⟨fun ⟨hrow, _, hin⟩ => ⟨hrow, hin⟩, fun ⟨hrow, hin⟩ => ⟨hrow, hnull hrow, hin⟩⟩

/-- The rows of the edge table in the scope of a graph are those whose ids the graph holds. -/
theorem exists_rowsInScope (hfind : db.find? env.schema.edgeTable = some t)
    (ht : env.IsEdgeTable t) (hg : env.Holds db g .edge es) {edges? : Option String}
    (hr : env.restriction? g .edge = .ok edges?) :
    ∃ rows, env.rowsInScope db .edge edges? env.schema.reserved = .ok rows ∧
      ∀ r, r ∈ rows ↔ r ∈ t.rows ∧ r.get env.schema.idColumn ∈ es := by
  have hcolumns (column : String) (hc : column ∈ env.schema.reserved) := (ht.keeps column hc).has
  obtain ⟨edges', hr', hscope⟩ := hg.restriction?
  obtain rfl : edges' = edges? := by simpa [hr'] using hr
  obtain ⟨rfl, hl⟩ | ⟨table, rfl, hl⟩ := hscope
  · obtain ⟨t', hfind', _, rfl⟩ := hl
    obtain rfl : t = t' := Option.some.inj (hfind.symm.trans hfind')
    refine ⟨t.rows, ?_, fun r => ?_⟩
    · simp [rowsInScope, restrict, Schema.annotationTable,
        Database.tableWith_of_find? hfind hcolumns]
    · exact ⟨fun hrow => ⟨hrow, List.mem_map_of_mem hrow⟩, fun hrow => hrow.1⟩
  · exact ⟨_, rowsInScope_of_lists hfind ht hl hcolumns, fun r => ht.mem_filter⟩

/-- All edges of the table are those of the base graph. -/
theorem HasEdgeTable.holds_base (ht : env.HasEdgeTable db) : ∃ es, env.Holds db .base .edge es := by
  obtain ⟨t, hfind, ht⟩ := ht
  exact ⟨_, _, rfl, t, hfind, ht.keeps _ env.schema.idColumn_mem_reserved, rfl⟩

/-- The edges of a graph are those of the base graph whose ids it holds. -/
theorem Holds.hasEdge_iff (hg : env.Holds db g .edge es) (ht : env.HasEdgeTable db) :
    env.HasEdge db g a ↔ a.id ∈ es ∧ env.HasEdge db .base a := by
  obtain ⟨t, hfind, htable⟩ := ht
  have hbase : env.Holds db .base .edge (t.values env.schema.idColumn) :=
    ⟨_, rfl, t, hfind, htable.keeps _ env.schema.idColumn_mem_reserved, rfl⟩
  rw [Environment.hasEdge_iff hfind hg, Environment.hasEdge_iff hfind hbase]
  refine and_congr_right fun _ => (and_iff_right_of_imp ?_).symm
  rintro ⟨r, hr, rfl⟩
  exact List.mem_map_of_mem hr

/-- Two graphs list the same vertices and the same edges, each once. -/
def SameContents (env : Environment) (db : Database) (tables : TablePair) (db' : Database)
    (tables' : TablePair) : Prop :=
  ∀ e, ∃ p, env.schema.ListsOnce db (tables.part e) p ∧ env.schema.ListsOnce db' (tables'.part e) p

/-- Searches see exactly the edges of the graph. -/
theorem exists_arcs (ht : env.HasEdgeTable db) (hg : env.Holds db g .edge es)
    {edges? : Option String} (hr : env.restriction? g .edge = .ok edges?) :
    ∃ arcs, env.arcs db edges? = .ok arcs ∧ ∀ a, a ∈ arcs ↔ env.HasEdge db g a := by
  obtain ⟨t, hfind, ht⟩ := ht
  obtain ⟨rows, hrows, hmem⟩ := exists_rowsInScope hfind ht hg hr
  -- what the edge table keeps is already in the form in which searches see it
  have harc (r : Row) (hrow : r ∈ rows) : (⟨env.schema.idAffinity.store (r.get env.schema.idColumn),
      env.schema.idAffinity.store (r.get env.schema.childColumn),
      env.schema.idAffinity.store (r.get env.schema.parentColumn)⟩ : Arc) = env.schema.arcOf r := by
    have hcell (column : String) (hc : column ∈ env.schema.reserved) :
        env.schema.idAffinity.store (r.get column) = r.get column :=
      (ht.keeps column hc).stored _ (List.mem_map_of_mem ((hmem r).mp hrow).1)
    rw [Schema.arcOf, hcell, hcell, hcell] <;> simp
  refine ⟨rows.map env.schema.arcOf, ?_, fun a => ?_⟩
  · simp only [arcs, hrows, ok_bind, pure_eq_ok, List.map_congr_left harc]
  · rw [hasEdge_iff hfind hg, List.mem_map]
    constructor
    · rintro ⟨r, hrow, rfl⟩
      exact ⟨((hmem r).mp hrow).2, r, ((hmem r).mp hrow).1, rfl⟩
    · rintro ⟨hin, r, hrow, rfl⟩
      exact ⟨r, (hmem r).mpr ⟨hrow, hin⟩, rfl⟩

/-- The edges of a graph between given vertices can be read. -/
theorem exists_edgesWithin (ht : env.HasEdgeTable db) (hg : env.Holds db g .edge es)
    {edges? : Option String} (hr : env.restriction? g .edge = .ok edges?) (hnull : .null ∉ vs) :
    ∃ ids, env.edgesWithin db edges? vs = .ok ⟨env.schema.idAffinity, ids⟩ ∧
      ∀ id, id ∈ ids ↔ ∃ a, env.HasEdge db g a ∧ a.id = id ∧ a.child ∈ vs ∧ a.parent ∈ vs := by
  obtain ⟨arcs, harcs, hmem⟩ := exists_arcs ht hg hr
  have hid (id : Value) : id ∈ (Arc.within arcs vs).map (·.id) ↔
      ∃ a, env.HasEdge db g a ∧ a.id = id ∧ a.child ∈ vs ∧ a.parent ∈ vs := by
    simp only [Arc.within, List.mem_map, List.mem_filter, Bool.and_eq_true, Value.memberOf_iff,
      hmem]
    constructor
    · exact fun ⟨a, ⟨ha, ⟨_, hc⟩, _, hp⟩, hid⟩ => ⟨a, ha, hid, hc, hp⟩
    · intro h
      obtain ⟨a, ha, hid, hc, hp⟩ := h
      exact ⟨a, ⟨ha, ⟨fun hn => hnull (hn ▸ hc), hc⟩, fun hn => hnull (hn ▸ hp), hp⟩, hid⟩
  refine ⟨_, ?_, hid⟩
  have hkeeps : env.schema.idAffinity.Keeps ((Arc.within arcs vs).map (·.id)) := by
    intro id hin
    obtain ⟨a, ha, rfl, _⟩ := (hid id).mp hin
    exact ha.keeps ht _ (by simp)
  simp [edgesWithin, harcs, Schema.scratchIds, Cells.ofValues_of_keeps hkeeps]

/-! ## Fresh targets -/

/-- The handle has two tables, which are as they are made anew. Neither of them is the edge table,
and no graph keeps its vertices where the target keeps its edges, nor the other way round. -/
structure Fresh (env : Environment) (db : Database) (target : String) (tables : TablePair) :
    Prop where
  resolves : env.resolve (.named target) = .ok tables
  made : ∀ e, db.find? (tables.part e) = some ⟨env.schema.idColumns, []⟩
  apart : Name.folded env.schema.edgeTable ≠ Name.folded tables.edges
  kinds : ∀ g others, env.resolve g = .ok others → ∀ e e', e ≠ e' →
    Name.folded (others.part e) ≠ Name.folded (tables.part e')

namespace Fresh

variable {target : String} {tables : TablePair}

theorem lists (h : env.Fresh db target tables) (e : Element) :
    env.schema.Lists db (tables.part e) [] := by
  refine ⟨_, h.made e, ⟨?_, ?_, ?_⟩, rfl⟩
  · simp [Table.has, Table.names, Schema.idColumns]
  · simp [Table.affinity, Column.affinityOf, Schema.idColumns]
  · simp [Affinity.Keeps, Table.values]

theorem listsOnce (h : env.Fresh db target tables) (e : Element) :
    env.schema.ListsOnce db (tables.part e) fun _ => False :=
  ⟨[], h.lists e, by simp, by simp⟩

theorem parts (h : env.Fresh db target tables) :
    Name.folded tables.vertices ≠ Name.folded tables.edges :=
  h.kinds _ _ h.resolves .vertex .edge (by simp)

theorem edgeTable_ne (h : env.Fresh db target tables) (e : Element) :
    Name.folded env.schema.edgeTable ≠ Name.folded (tables.part e) := by
  cases e with
  | vertex => exact h.kinds .base _ rfl .edge .vertex (by simp)
  | edge => exact h.apart

/-- What is written to a fresh target is read from no graph, unless that has the same table. Then it
held nothing before. -/
theorem holds_of_same (h : env.Fresh db target tables)
    (hs : Database.SameBut [tables.vertices, tables.edges] db db') (hh : env.Holds db g e vs)
    (hshared : vs = [] → env.schema.Lists db' (tables.part e) []) : env.Holds db' g e vs := by
  obtain ⟨others, hr, hl⟩ := id hh
  -- two graphs share a table where their names differ in case only
  by_cases hsame : Name.folded (others.part e) = Name.folded (tables.part e)
  · obtain rfl : vs = [] := (hl.of_folded hsame).unique (h.lists e)
    exact ⟨others, hr, (hshared rfl).of_folded hsame.symm⟩
  · apply hh.of_same hs
    intro others' hr' name hname
    obtain rfl : others = others' := by simpa [hr] using hr'
    simp only [List.mem_cons, List.not_mem_nil, or_false] at hname
    rcases hname with rfl | rfl
    · cases e with
      | vertex => exact hsame
      | edge => exact h.kinds g others hr .edge .vertex (by simp)
    · cases e with
      | vertex => exact h.kinds g others hr .vertex .edge (by simp)
      | edge => exact hsame

/-- A graph has its edges where no vertices are written. -/
theorem holds_edges_of_same (h : env.Fresh db target tables)
    (hs : Database.SameBut [tables.vertices] db db') (hh : env.Holds db g .edge es) :
    env.Holds db' g .edge es := by
  apply hh.of_same hs
  intro others hr name hname
  obtain rfl := List.mem_singleton.mp hname
  exact h.kinds g others hr .edge .vertex (by simp)

/-- Nor is the edge table written to. -/
theorem edgeTable_of_same (h : env.Fresh db target tables)
    (hs : Database.SameBut [tables.vertices, tables.edges] db db') :
    db'.find? env.schema.edgeTable = db.find? env.schema.edgeTable := by
  apply hs _
  intro name hname
  simp only [List.mem_cons, List.not_mem_nil, or_false] at hname
  obtain rfl | rfl := hname
  · exact h.edgeTable_ne .vertex
  · exact h.edgeTable_ne .edge

theorem hasEdge_of_same (h : env.Fresh db target tables)
    (hs : Database.SameBut [tables.vertices, tables.edges] db db')
    (hg : env.Holds db g .edge es) (hg' : env.Holds db' g .edge es) :
    env.HasEdge db' g a ↔ env.HasEdge db g a := by
  unfold HasEdge
  rw [h.edgeTable_of_same hs]
  constructor
  · rintro ⟨t, es', ht, hes, ha⟩
    obtain rfl := hg'.unique hes
    exact ⟨t, es, ht, hg, ha⟩
  · rintro ⟨t, es', ht, hes, ha⟩
    obtain rfl := hg.unique hes
    exact ⟨t, es, ht, hg', ha⟩

end Fresh
end Environment

/-! ## Statements -/

namespace Program.wp

open Environment

variable {env : Environment} {s : Store} {table : String} {vs : List Value}

theorem seeds {Q : List Value → Store → Prop} (h : env.schema.Lists s.database table vs)
    (hQ : Q vs s) : wp (env.seeds table) Q s := by
  refine .query ?_ hQ
  simp [h.ids, Schema.scratchIds, Cells.ofValues_of_keeps h.keeps]

/-- The ids of a table among vertices are those that it has in common with them. -/
theorem seedsAmong {Q : (List Value → List Value) → Store → Prop}
    (h : env.schema.Lists s.database table vs) (hnull : .null ∉ vs)
    (hQ : ∀ among : List Value → List Value,
      (∀ ws, env.schema.idAffinity.Keeps ws → SourcesAmong among vs ws) → Q among s) :
    wp (env.seedsAmong table) Q s := by
  refine .query (by simp [h.ids]; rfl) (hQ _ fun ws hws v => ?_)
  have hkeeps : env.schema.idAffinity.Keeps (vs.filter (·.memberOf ws)) :=
    fun w hw => h.keeps w (List.mem_filter.mp hw).1
  have hv : v ∈ vs → v ≠ .null := fun hin hn => hnull (hn ▸ hin)
  simp only [Schema.scratchIds, Cells.ofValues_of_keeps hws, Cells.values_within,
    Cells.ofValues_of_keeps hkeeps, List.mem_filter, Value.memberOf_iff]
  exact ⟨fun ⟨hin, _, hw⟩ => ⟨hin, hw⟩, fun ⟨hin, hw⟩ => ⟨hin, hv hin, hw⟩⟩

/-- Edges are read only where a step is to be taken. -/
theorem arcsFor {g : GraphRef} {es : List Value} {edges? : Option String} {steps : Nat}
    {Q : List Arc → Store → Prop} (ht : env.HasEdgeTable s.database)
    (hg : env.Holds s.database g .edge es) (hr : env.restriction? g .edge = .ok edges?)
    (hQ : ∀ arcs : List Arc, (∀ a ∈ arcs, env.HasEdge s.database g a) →
      (steps ≠ 0 → ∀ a, a ∈ arcs ↔ env.HasEdge s.database g a) → Q arcs s) :
    wp (env.arcsFor edges? steps) Q s := by
  unfold Environment.arcsFor
  -- without a step no edge is read, and then nothing is said about all of them
  by_cases hsteps : steps = 0
  · rw [if_pos hsteps]
    exact .pure (hQ [] (by simp) fun h => absurd hsteps h)
  · rw [if_neg hsteps]
    obtain ⟨arcs, harcs, hmem⟩ := exists_arcs ht hg hr
    exact .query harcs (hQ arcs (fun a => (hmem a).mp) fun _ => hmem)

/-- Vertices or edges found by a search are added to the target, each once. -/
theorem insertFound {p : Value → Prop} {found : List Value} {Q : Unit → Store → Prop}
    (ht : env.schema.ListsOnce s.database table p) (hp : ¬ p .null)
    (hfound : env.schema.idAffinity.Keeps found) (hnull : .null ∉ found)
    (hQ : ∀ db, env.schema.ListsOnce db table (fun v => p v ∨ v ∈ found) →
      Database.SameBut [table] s.database db → Q () { s with database := db }) :
    wp (env.schema.insertNewIds table fun _ => return env.schema.scratchIds found) Q s := by
  refine .insertNewIds ht hp ?_ hfound hnull hQ
  simp [Schema.scratchIds, Cells.ofValues_of_keeps hfound]

/-- What several searches find is added to the target, one list after another. -/
theorem insertEach {α : Type} {ids : α → List Value} {items : List α} {Q : Unit → Store → Prop}
    (ht : env.schema.ListsOnce s.database table fun _ => False)
    (hfound : env.schema.idAffinity.Keeps (items.flatMap ids)) (hnull : .null ∉ items.flatMap ids)
    (hQ : ∀ s', env.schema.ListsOnce s'.database table (· ∈ items.flatMap ids) →
      Database.SameBut [table] s.database s'.database → Q () s') :
    wp (items.forM fun x =>
      env.schema.insertNewIds table fun _ => return env.schema.scratchIds (ids x)) Q s := by
  -- the invariant: the table lists what the items done so far have brought
  refine (forM (fun done s' => env.schema.ListsOnce s'.database table (· ∈ done.flatMap ids) ∧
    Database.SameBut [table] s.database s'.database) ?_ ?_).mono fun _ s' h => hQ s' h.1 h.2
  · exact ⟨ht.congr (by simp), .refl _ _⟩
  · intro done x s' hprefix h
    obtain ⟨hlists, hsame⟩ := h
    obtain ⟨rest, hitems⟩ := hprefix
    have hmem {y : α} {v : Value} (hy : y ∈ done ++ [x]) (hv : v ∈ ids y) :
        v ∈ items.flatMap ids :=
      List.mem_flatMap.mpr ⟨y, hitems ▸ List.mem_append_left rest hy, hv⟩
    refine .insertFound hlists ?_ ?_ ?_ fun db hl hs => ?_
    · intro hin
      obtain ⟨y, hy, hv⟩ := List.mem_flatMap.mp hin
      exact hnull (hmem (List.mem_append_left _ hy) hv)
    · exact fun v hv => hfound v (hmem (by simp) hv)
    · exact fun hv => hnull (hmem (by simp) hv)
    · exact ⟨hl.congr fun v => by simp, hsame.trans hs⟩

/-- Edges between given vertices are added to the target, each once. -/
theorem insertEdgesWithin {g : GraphRef} {es : List Value} {edges? : Option String}
    {p : Value → Prop} {Q : Unit → Store → Prop} (ht : env.schema.ListsOnce s.database table p)
    (hp : ¬ p .null) (hedges : env.HasEdgeTable s.database)
    (hg : env.Holds s.database g .edge es) (hr : env.restriction? g .edge = .ok edges?)
    (hnull : .null ∉ vs)
    (hQ : ∀ db, env.schema.ListsOnce db table (fun id => p id ∨
        ∃ a, env.HasEdge s.database g a ∧ a.id = id ∧ a.child ∈ vs ∧ a.parent ∈ vs) →
      Database.SameBut [table] s.database db → Q () { s with database := db }) :
    wp (env.schema.insertNewIds table fun db => env.edgesWithin db edges? vs) Q s := by
  obtain ⟨ids, hids, hid⟩ := exists_edgesWithin hedges hg hr hnull
  refine .insertNewIds ht hp hids ?_ ?_ fun db hl hs => hQ db (hl.congr fun id => ?_) hs
  · intro id hin
    obtain ⟨a, ha, rfl, _⟩ := (hid id).mp hin
    exact ha.keeps hedges _ (by simp)
  · intro hin
    obtain ⟨a, ha, hid, _⟩ := (hid _).mp hin
    exact ha.id_ne_null hedges hid
  · rw [hid]

/-- Vertices are added to a fresh target, and then the edges between them. -/
theorem insertInduced {target : String} {tables : TablePair} {g : GraphRef} {es : List Value}
    {edges? : Option String} {Q : Unit → Store → Prop}
    (htarget : env.Fresh s.database target tables)
    (hedges : env.HasEdgeTable s.database) (hg : env.Holds s.database g .edge es)
    (hr : env.restriction? g .edge = .ok edges?) (hkeeps : env.schema.idAffinity.Keeps vs)
    (hnull : .null ∉ vs)
    (hQ : ∀ db, env.schema.ListsOnce db tables.vertices (· ∈ vs) →
      env.schema.ListsOnce db tables.edges
        (fun id => ∃ a, env.HasEdge s.database g a ∧ a.id = id ∧ a.child ∈ vs ∧ a.parent ∈ vs) →
      Database.SameBut [tables.vertices, tables.edges] s.database db →
      Q () { s with database := db }) :
    wp (do
      env.schema.insertNewIds tables.vertices fun _ => return env.schema.scratchIds vs
      env.schema.insertNewIds tables.edges fun db => env.edgesWithin db edges? vs) Q s := by
  refine .bind (.insertFound (htarget.listsOnce .vertex) (by simp) hkeeps hnull
    fun db₁ hv hs₁ => ?_)
  have hall : Database.SameBut [tables.vertices, tables.edges] s.database db₁ := hs₁.mono (by simp)
  have hg₁ := htarget.holds_edges_of_same hs₁ hg
  have he := (htarget.listsOnce .edge).of_same hs₁ (by simpa using htarget.parts.symm)
  refine .insertEdgesWithin he (by simp) ?_ hg₁ hr hnull fun db₂ he hs₂ => ?_
  · simpa [HasEdgeTable, htarget.edgeTable_of_same hall] using hedges
  refine hQ db₂ ((hv.of_same hs₂ (by simpa using htarget.parts)).congr (by simp))
    (he.congr fun id => ?_) (hall.trans (hs₂.mono (by simp)))
  simp only [htarget.hasEdge_of_same hall hg hg₁, false_or]

end Program.wp
end Provenance
