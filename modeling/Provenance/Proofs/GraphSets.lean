-- SUMMARY: No graph comes to list an id twice over whole runs.
import Provenance.Proofs.Frame

/-!
# Graphs are sets

A graph stays a set of ids over whole runs: neither of its tables comes to hold an id twice, or null
twice. Ids that are compared with what a table holds are added once. Those added without a guard are
distinct among themselves and go into an empty table. Both need that ids are compared in the form in
which the tables keep them, so the invariant of a run says this of all tables that ids come from.
-/
namespace Provenance

open Relation Program Store

theorem Row.get_ofCells_of_notMem {columns : List Column} {cell : String → Value} {name : String}
    (h : name ∉ columns.map (·.name)) : (ofCells columns cell).get name = .null := by
  have hlookup : (ofCells columns cell).cells.lookup name = none := by
    rw [List.lookup_eq_none_iff]
    intro entry hentry
    obtain ⟨c, hc, rfl⟩ := List.mem_map.mp hentry
    have hne : name ≠ c.name := fun heq => h (List.mem_map.mpr ⟨c, hc, heq.symm⟩)
    simpa using hne
  rw [get, hlookup]
  rfl

/-- A row with a single cell is null elsewhere. -/
theorem Table.get_row_of_ne {t : Table} {column other : String} (h : other ≠ column) (v : Value) :
    (t.row [(column, v)]).get other = .null := by
  by_cases hmem : other ∈ t.columns.map (·.name)
  · have hlookup : ([(column, v)].lookup other).getD .null = Value.null := by
      simp [List.lookup_cons, beq_false_of_ne h]
    rw [Table.row, Row.get_ofCells hmem, hlookup, Affinity.store_null]
  · exact Row.get_ofCells_of_notMem hmem

namespace Environment

variable {env : Environment} {before db db' : Database} {a : Access} {i : Instruction}
  {s s' : Store} {tables : TablePair} {e : Element} {t : Table} {name : String}

/-- The table of a graph: a set of ids. Endpoints matter if it is the edge table as well. -/
structure IsSet (env : Environment) (t : Table) : Prop where
  keeps : env.schema.KeepsIds t env.schema.idColumn
  nodup : (t.values env.schema.idColumn).Nodup
  ends : ∀ column ∈ env.endpointColumns .both, env.schema.idAffinity.Keeps (t.values column)

/-- The invariant of a run. -/
structure Sets (env : Environment) (db : Database) : Prop where
  graphs : ∀ name tables e t, env.resolve (.named name) = .ok tables →
    db.find? (tables.part e) = some t → env.IsSet t
  annotations : ∀ e t, db.find? (env.schema.annotationTable e) = some t →
    env.schema.KeepsIds t env.schema.idColumn
  ends : ∀ t, db.find? env.schema.edgeTable = some t → ∀ column ∈ env.endpointColumns .both,
    env.schema.idAffinity.Keeps (t.values column)
  unique : env.UniqueEdges db

namespace Sets

theorem keepsIds (h : env.Sets db) {g : GraphRef} (hg : env.resolve g = .ok tables)
    (ht : db.find? (tables.part e) = some t) : env.schema.KeepsIds t env.schema.idColumn := by
  cases g with
  | base =>
    obtain rfl := Except.ok.inj hg
    cases e with
    | vertex => exact h.annotations .vertex t ht
    | edge => exact h.annotations .edge t ht
  | named name => exact (h.graphs name tables e t hg ht).keeps

/-- What is known is in the form in which ids are kept. -/
theorem keeps_known (h : env.Sets db) {v : Value} (hv : env.Known db e v) :
    env.schema.idAffinity.store v = v := by
  induction hv with
  | held hg hcells hv =>
    obtain ⟨t, ht, _, rfl⟩ := Schema.ids_eq_ok hcells
    exact (h.keepsIds hg ht).stored _ hv
  | endpoint ht hr hcolumn => exact h.ends _ ht _ hcolumn _ (List.mem_map_of_mem hr)
  | stored _ ih => rw [ih, ih]

/-- And it is compared in this form. -/
theorem affinity_drawn (h : env.Sets db) {cells : Cells} (hcells : env.Drawn db e cells) :
    cells.affinity = env.schema.idAffinity := by
  rcases hcells.affinity with haffinity | ⟨g, tables, e', held, hg, hheld, haffinity⟩
  · exact haffinity
  · obtain ⟨t, ht, _, rfl⟩ := Schema.ids_eq_ok hheld
    rw [← haffinity]
    exact (h.keepsIds hg ht).affinity

/-- The invariant holds as long as new tables of graphs are sets. -/
theorem of_find? (h : env.Sets db)
    (hfind : ∀ g tables e t, env.resolve g = .ok tables → db'.find? (tables.part e) = some t →
      db.find? (tables.part e) = some t ∨ env.IsSet t) : env.Sets db' := by
  have hannotation (e : Element) (t : Table)
      (ht : db'.find? (env.schema.annotationTable e) = some t) :
      db.find? (env.schema.annotationTable e) = some t ∨ env.IsSet t := by
    have hbase := hfind .base ⟨env.schema.vertexTable, env.schema.edgeTable⟩ e t rfl
    cases e with
    | vertex => exact hbase ht
    | edge => exact hbase ht
  refine ⟨fun name tables e t hr ht => ?_, fun e t ht => ?_, fun t ht => ?_, fun t ht => ?_⟩
  · rcases hfind _ _ _ _ hr ht with ht | hset
    · exact h.graphs name tables e t hr ht
    · exact hset
  · rcases hannotation e t ht with ht | hset
    · exact h.annotations e t ht
    · exact hset.keeps
  · rcases hannotation .edge t ht with ht | hset
    · exact h.ends t ht
    · exact hset.ends
  · rcases hannotation .edge t ht with ht | hset
    · exact h.unique t ht
    · exact hset.nodup.filter _

theorem drop (h : env.Sets db) (name : String) : env.Sets (db.drop name) := by
  refine h.of_find? fun g tables e t _ ht => .inl ?_
  rw [Database.find?_drop] at ht
  split at ht
  · cases ht
  · exact ht

/-- A table is put where no graph has one, or it is a set. -/
theorem put (h : env.Sets db)
    (hset : ∀ g tables e, env.resolve g = .ok tables →
      Name.folded (tables.part e) = Name.folded name → env.IsSet t) : env.Sets (db.put name t) := by
  refine h.of_find? fun g tables e t' hg ht => ?_
  rw [Database.find?_put] at ht
  split at ht
  · next hname =>
    obtain rfl := Option.some.inj ht
    exact .inr (hset g tables e hg hname)
  · exact .inl ht

end Sets

theorem isSet_empty (env : Environment) : env.IsSet ⟨env.schema.idColumns, []⟩ := by
  refine ⟨⟨?_, ?_, ?_⟩, ?_, ?_⟩
  · simp [Table.has, Table.names, Schema.idColumns]
  · simp [Table.affinity, Column.affinityOf, Schema.idColumns]
  · simp [Affinity.Keeps, Table.values]
  · simp [Table.values]
  · simp [Affinity.Keeps, Table.values]

/-- A set stays one if it gets new ids, each once. -/
theorem IsSet.append (h : env.IsSet t) {new : List Value}
    (hkeeps : env.schema.idAffinity.Keeps new) (hnodup : new.Nodup)
    (hnew : ∀ v ∈ new, v ∉ t.values env.schema.idColumn) :
    env.IsSet (t.append (t.column env.schema.idColumn new)) := by
  have hvalues := h.keeps.values_append hkeeps
  refine ⟨⟨h.keeps.has, h.keeps.affinity, ?_⟩, ?_, fun column hcolumn v hv => ?_⟩
  · rw [hvalues]
    intro v hv
    rcases List.mem_append.mp hv with hv | hv
    · exact h.keeps.stored v hv
    · exact hkeeps v hv
  · rw [hvalues, List.nodup_append]
    refine ⟨h.nodup, hnodup, ?_⟩
    rintro v hv w hw rfl
    exact hnew v hw hv
  · simp only [Table.values, Table.append, List.map_append, List.mem_append] at hv
    rcases hv with hv | hv
    · exact h.ends column hcolumn v hv
    · obtain ⟨r, hr, rfl⟩ := List.mem_map.mp hv
      obtain ⟨w, hw, rfl⟩ := List.mem_map.mp hr
      -- a new row has a cell in the column of ids and no other
      by_cases hid : column = env.schema.idColumn
      · rw [hid, h.keeps.get_row, hkeeps w hw, hkeeps w hw]
      · rw [Table.get_row_of_ne hid, Affinity.store_null]

/-! ## One statement -/

/-- The tables of handles do not get in each other's way: those of a graph are two, and those of
metadata are not tables of graphs. -/
structure Separate (env : Environment) : Prop where
  parts : ∀ name tables, env.resolve (.named name) = .ok tables →
    Name.folded tables.vertices ≠ Name.folded tables.edges
  metadata : ∀ name tables, env.resolveMetadata name = .ok tables →
    ∀ g others, env.resolve g = .ok others → tables.Apart others

/-- Where ids are added without a guard, the table was empty when the instruction began. -/
def Ready (env : Environment) (a : Access) (before : Database) : Prop :=
  ∀ e ∈ a.unguarded, ∀ tables t, env.writableTables a.target = .ok tables →
    before.find? (tables.part e) = some t → t.rows = []

theorem Sets.insert (h : env.Sets db) (hr : env.resolve (.named name) = .ok tables)
    {new : List Value} (hkeeps : env.schema.idAffinity.Keeps new) (hnodup : new.Nodup)
    (hnew : ∀ t, db.find? (tables.part e) = some t →
      ∀ v ∈ new, v ∉ t.values env.schema.idColumn)
    (hdb : db.insertColumn (tables.part e) env.schema.idColumn new = .ok db') : env.Sets db' := by
  obtain ⟨t, ht, _, rfl⟩ := Database.insertColumn_eq_ok hdb
  have hset := (h.graphs name tables e t hr ht).append hkeeps hnodup (hnew t ht)
  exact h.put fun _ _ _ _ _ => hset

/-- The new ids among known ones are distinct, and the table holds none of them. -/
theorem Sets.insertNew (h : env.Sets db) (hr : env.resolve (.named name) = .ok tables)
    {found present : Cells} (hfound : env.Drawn db e found)
    (hpresent : env.schema.ids db (tables.part e) = .ok present)
    (hdb : db.insertColumn (tables.part e) env.schema.idColumn
      (Value.groups (found.without present).values) = .ok db') : env.Sets db' := by
  have hmem {v : Value} (hv : v ∈ Value.groups (found.without present).values) :
      v ∈ (found.without present).values := Value.mem_groups.mp hv
  refine h.insert hr (fun v hv => ?_) (Value.nodup_groups _) (fun t ht v hv hin => ?_) hdb
  · exact h.keeps_known ((hfound.without present).known v (hmem hv))
  · obtain ⟨t', ht', _, rfl⟩ := Schema.ids_eq_ok hpresent
    obtain rfl : t = t' := by simpa [ht] using ht'
    have haffinity : found.affinity = (t.cells env.schema.idColumn).affinity :=
      (h.affinity_drawn hfound).trans (h.graphs name tables e t hr ht).keeps.affinity.symm
    have hv := hmem hv
    rw [Cells.values_without haffinity, List.mem_filter, Value.absentFrom_iff] at hv
    rcases hv.2 with hempty | ⟨_, _, hout⟩
    · have hvalues : t.values env.schema.idColumn = [] := hempty
      simp [hvalues] at hin
    · exact hout hin

theorem exists_name_of_writable {target : GraphRef} (h : env.writable target = .ok tables) :
    ∃ name, target = .named name ∧ env.resolve (.named name) = .ok tables := by
  cases target with
  | base => cases h
  | named name => exact ⟨name, rfl, h⟩

/-- Every statement keeps the invariant. -/
theorem Sets.write (h : env.Sets db) (hsep : env.Separate) (hready : env.Ready a before)
    (hw : env.Write before a db db') : env.Sets db' := by
  cases hw with
  | drop => exact h.drop _
  | @create target _ _ _ _ htables hdb =>
    obtain ⟨_, rfl⟩ := Database.create_eq_ok hdb
    cases target with
    | graph g => exact h.put fun _ _ _ _ _ => isSet_empty env
    | metadata name =>
      exact h.put fun g others e hg heq => absurd heq.symm (hsep.metadata _ _ htables g _ hg _ e)
  | insertNew htables hfound hpresent hdb =>
    obtain ⟨name, rfl, hr⟩ := exists_name_of_writable htables
    exact h.insertNew hr hfound hpresent hdb
  | insertAll htables he hfirst hknown hnodup hdb =>
    obtain ⟨name, rfl, hr⟩ := exists_name_of_writable htables
    refine h.insert hr (fun v hv => h.keeps_known (hknown v hv)) (hnodup h.unique)
      (fun t ht v _ hin => ?_) hdb
    -- the table is the one that was empty when the instruction began
    have hrows := hready _ he _ t htables ((hfirst (hsep.parts name _ hr)).symm.trans ht)
    simp [Table.values, hrows] at hin
  | tag htables hdb =>
    obtain ⟨_, _, _, rfl⟩ := Database.insertMetadata_eq_ok hdb
    exact h.put fun g others e hg heq => absurd heq.symm (hsep.metadata _ _ htables g _ hg _ e)

/-! ## Runs -/

/-- An instruction is carried out, with success or without. Where it adds ids without a guard, the
table of its target is empty. -/
def Issues [RegexLibrary] [Summation] (env : Environment) (s s' : Store) : Prop :=
  ∃ i : Instruction, (∀ a ∈ i.access?, env.Ready a s.database) ∧ s' = ((i.run env).perform s).2

theorem Sets.issue [RegexLibrary] [Summation]
    (h : env.Sets s.database) (hsep : env.Separate) (hs : env.Issues s s') :
    env.Sets s'.database := by
  obtain ⟨i, hready, rfl⟩ := hs
  have hrun := (i.run_after env s).database
  generalize ((i.run env).perform s).2.database = db at hrun ⊢
  induction hrun with
  | refl => exact h
  | tail _ hw ih =>
    obtain ⟨a, ha, hw⟩ := hw
    exact ih.write hsep (hready a ha) hw

theorem Sets.run [RegexLibrary] [Summation] (h : env.Sets s.database) (hsep : env.Separate)
    (hrun : ReflTransGen env.Issues s s') : env.Sets s'.database := by
  induction hrun with
  | refl => exact h
  | tail _ hs ih => exact ih.issue hsep hs

/-- A world in which no edge id occurs twice, with graphs that are newly made or still without
tables. Nothing is asked of the ids of vertices but that the tables keep them. -/
structure Begins (env : Environment) (db : Database) : Prop where
  annotations : ∀ e t, db.find? (env.schema.annotationTable e) = some t →
    env.schema.KeepsIds t env.schema.idColumn
  ends : ∀ t, db.find? env.schema.edgeTable = some t → ∀ column ∈ env.endpointColumns .both,
    env.schema.idAffinity.Keeps (t.values column)
  unique : env.UniqueEdges db
  made : ∀ name tables e t, env.resolve (.named name) = .ok tables →
    db.find? (tables.part e) = some t → t = ⟨env.schema.idColumns, []⟩

theorem Begins.sets (h : env.Begins db) : env.Sets db := by
  refine ⟨fun name tables e t hr ht => ?_, h.annotations, h.ends, h.unique⟩
  obtain rfl := h.made name tables e t hr ht
  exact isSet_empty env

/-- No table of a graph ever holds an id twice, or null twice. -/
theorem graphs_stay_sets [RegexLibrary] [Summation]
    (hsep : env.Separate) (hbegins : env.Begins s.database)
    (hrun : ReflTransGen env.Issues s s') (hr : env.resolve (.named name) = .ok tables)
    (ht : s'.database.find? (tables.part e) = some t) : (t.values env.schema.idColumn).Nodup :=
  ((hbegins.sets.run hsep hrun).graphs name tables e t hr ht).nodup

/-! ## A graph over a small world -/

/-- Handles that are apart do not get in each other's way, if graphs have the tables that are named
after them. -/
theorem Apart.separate (h : env.Apart) (hown : env.OwnTables) : env.Separate := by
  refine ⟨fun name tables hr => ?_, fun name tables hr g others hg => ?_⟩
  · obtain rfl := hown.resolve hr
    have hne := folded_graphTables_ne env name name (show Element.vertex ≠ .edge by simp)
    exact hne
  · have hne : Handle.metadata name ≠ .graph g := by simp
    exact h _ _ tables others hne hr hg

/-- A world that is loaded is one to begin with, if its edges are distinct and all graphs are newly
made. -/
theorem begins_of_isBase {w : World} (hbase : w.IsBase env db)
    (hedges : (w.edges.map fun e => env.schema.idAffinity.store e.id).Nodup)
    (hmade : ∀ name tables e t, env.resolve (.named name) = .ok tables →
      db.find? (tables.part e) = some t → t = ⟨env.schema.idColumns, []⟩) : env.Begins db := by
  refine ⟨fun e t ht => ?_, fun t ht column hcolumn => ?_, fun t ht => ?_, hmade⟩
  · obtain ⟨vs, htables, hr, t', ht', hkeeps, _⟩ : ∃ vs, env.Holds db .base e vs := by
      cases e with
      | vertex => exact ⟨_, hbase.vertices⟩
      | edge => exact ⟨_, hbase.edges⟩
    obtain rfl := Except.ok.inj hr
    obtain rfl : t = t' := by cases e <;> exact Option.some.inj (ht.symm.trans ht')
    exact hkeeps
  · obtain ⟨t', ht', hkeeps⟩ := hbase.hasEdgeTable
    obtain rfl : t = t' := Option.some.inj (ht.symm.trans ht')
    exact (hkeeps.keeps column (by simp_all [endpointColumns, Schema.reserved])).stored
  · obtain ⟨tables, hr, t', ht', _, hids⟩ := hbase.edges
    obtain rfl := Except.ok.inj hr
    obtain rfl : t = t' := Option.some.inj (ht.symm.trans ht')
    rw [hids]
    exact hedges.filter _

/-- An environment with a single graph. -/
def oneGraph : Environment :=
  let none : Environment := ⟨.standard, Environment.standardStem, .empty, .empty⟩
  none.addGraph "g"

theorem oneGraph_ownTables : oneGraph.OwnTables := by
  have hcreate : Environment.create .standard (some Environment.standardStem) =
    .ok ⟨.standard, Environment.standardStem, .empty, .empty⟩ := by decide
  exact (ownTables_of_create hcreate).addGraph

theorem resolve_oneGraph {name : String} (h : oneGraph.resolve (.named name) = .ok tables) :
    tables = oneGraph.graphTables "g" := by
  obtain rfl : name = "g" := by
    by_contra hname
    have hfind : oneGraph.graphs.find? name = none := by
      change [("g", oneGraph.graphTables "g")].lookup name = none
      simp [List.lookup_cons, beq_false_of_ne hname]
    simp [resolve, hfind] at h
  exact oneGraph_ownTables.resolve h

/-- A small world with a newly made graph. -/
theorem wp_oneGraph_of {w : World} (hw : w.CanLoad oneGraph.schema)
    (hids : ∀ e ∈ w.edges, e.id ≠ .null) :
    Program.wp (do
      w.load oneGraph.schema
      oneGraph.createEmpty (.named "g"))
      (fun _ s => w.IsBase oneGraph s.database ∧
        oneGraph.Fresh s.database "g" (oneGraph.graphTables "g") ∧ s.CanScratch)
      SmallWorld.start := by
  have hbase (e e' : Element) : Name.folded (oneGraph.schema.annotationTable e) ≠
      Name.folded ((oneGraph.graphTables "g").part e') := by
    cases e <;> cases e' <;> decide
  have hload : (w.load oneGraph.schema).wp (fun _ s' => w.IsBase oneGraph s'.database ∧
      s'.scratchStem = SmallWorld.start.scratchStem) SmallWorld.start :=
    World.wp_load hw (by decide) (by decide) hids
  refine .bind (hload.mono fun _ s₁ h₁ => ?_)
  obtain ⟨hw, hstem⟩ := h₁
  refine (wp_createEmpty oneGraph_ownTables rfl (by decide) (by decide) (by decide) hbase).mono
    fun _ s h => ?_
  obtain ⟨hfresh, hsame, hstem'⟩ := h
  refine ⟨hw.of_same hsame fun e => TablePair.forall_tables (hbase e), hfresh, ?_⟩
  rw [Store.CanScratch, hstem', hstem]
  decide

/-- The walk of two edges with a newly made graph. -/
theorem wp_oneGraph :
    let w := SmallWorld.world ["a", "b", "c"] SmallWorld.chain
    Program.wp (do
      w.load oneGraph.schema
      oneGraph.createEmpty (.named "g"))
      (fun _ s => w.IsBase oneGraph s.database ∧
        oneGraph.Fresh s.database "g" (oneGraph.graphTables "g") ∧ s.CanScratch)
      SmallWorld.start := by
  refine wp_oneGraph_of (SmallWorld.canLoad _ _) fun e he => ?_
  obtain ⟨_, _, rfl⟩ := List.mem_map.mp he
  simp

/-- A search from a graph into the same graph. -/
theorem graphs_stay_sets_chain :
    Program.wp (do
      (SmallWorld.world ["a", "b", "c"] SmallWorld.chain).load oneGraph.schema
      oneGraph.createEmpty (.named "g"))
      (fun _ s => oneGraph.Separate ∧ oneGraph.Begins s.database ∧
        ∃ s' t, ReflTransGen oneGraph.Issues s s' ∧
          s'.database.find? (oneGraph.graphTables "g").vertices = some t ∧
          .text "a" ∈ t.values "hash" ∧ (t.values "hash").Nodup)
      SmallWorld.start := by
  refine wp_oneGraph.mono fun _ s h => ?_
  obtain ⟨hw, hfresh, hscratch⟩ := h
  have hsep : oneGraph.Separate := (apart_of_pairwise (by decide)).separate oneGraph_ownTables
  have hbegins : oneGraph.Begins s.database := by
    refine begins_of_isBase hw (by decide) fun name tables e t hr ht => ?_
    obtain rfl := resolve_oneGraph hr
    exact Option.some.inj (ht.symm.trans (hfresh.made e))
  have hready {i : Instruction} (hi : i.access? = some (.insert (.named "g") [])) {db : Database} :
      ∀ a ∈ i.access?, oneGraph.Ready a db := by
    intro a ha
    obtain rfl := Option.some.inj (hi.symm.trans ha)
    simp [Ready, Access.unguarded]
  -- the first instruction adds a vertex, the second one searches from it
  obtain ⟨_, hr, hpresent⟩ := hw.vertices
  obtain rfl := Except.ok.inj hr
  have hadd : (oneGraph.insertGiven .vertex (.named "g") ["a"]).wp _ s :=
    wp_insertGiven (e := .vertex) hscratch hfresh hpresent (by decide)
  obtain ⟨_, s₁, hadd, ⟨_, ⟨t, ht, _, rfl⟩, _, hmem⟩, _⟩ := hadd
  have hfirst : oneGraph.Issues s s₁ := by
    refine ⟨.insertGiven .vertex (.named "g") ["a"], hready rfl, ?_⟩
    change s₁ = (Program.perform (oneGraph.insertGiven .vertex (.named "g") ["a"] >>= _) s).2
    rw [perform_bind_of_ok hadd]
    rfl
  let search : Instruction := .lineage (.named "g") .base (.named "g") 2 .ancestor
  have hsecond : oneGraph.Issues s₁ ((search.run oneGraph).perform s₁).2 :=
    ⟨search, hready rfl, rfl⟩
  obtain ⟨more, ht'⟩ := Writes.grows (search.run_after oneGraph s₁).database rfl _ t ht
  have hrun : ReflTransGen oneGraph.Issues s ((search.run oneGraph).perform s₁).2 :=
    (ReflTransGen.single hfirst).tail hsecond
  have hg : oneGraph.resolve (.named "g") = .ok (oneGraph.graphTables "g") := rfl
  refine ⟨hsep, hbegins, _, _, hrun, ht', ?_, ?_⟩
  · have ha : .text "a" ∈ t.values "hash" := (hmem _).mpr ⟨by decide, "a", by simp, by decide, rfl⟩
    rw [Table.values, Table.append, List.map_append]
    exact List.mem_append_left _ ha
  · exact graphs_stay_sets (e := .vertex) hsep hbegins hrun hg ht'

end Environment
end Provenance
