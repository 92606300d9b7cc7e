-- SUMMARY: Graphs hold no ids but those of the annotation tables over whole runs.
import Provenance.Proofs.Runs

/-!
# Graphs are subsets of the base graph

Over whole runs, with whatever graphs as targets and sources, a graph holds no ids but those of rows
of the annotation tables. All ids that an instruction writes are known, and what is known is among
the annotations: ids of other graphs by the invariant, and ends of edges because the world has them
among its vertices.
-/
namespace Provenance

open Program Store

namespace Environment

/-- A world in which both ends of every edge are vertices. Its ids are in the form in which they are
kept. -/
structure Closed (env : Environment) (world : Database) : Prop where
  keeps : ∀ e v, env.IsAnnotated world e v → env.schema.idAffinity.store v = v
  ends : ∀ t r column, world.find? env.schema.edgeTable = some t → r ∈ t.rows →
    column ∈ env.endpointColumns .both → env.IsAnnotated world .vertex (r.get column)

/-- A table of ids that are among the annotations of a world. -/
structure IsSubset (env : Environment) (world : Database) (e : Element) (t : Table) : Prop where
  affinity : t.affinity env.schema.idColumn = env.schema.idAffinity
  annotated : ∀ v ∈ t.values env.schema.idColumn, env.IsAnnotated world e v

/-- The invariant of a run over a world. -/
structure Subsets (env : Environment) (world db : Database) : Prop where
  annotations : ∀ e, db.find? (env.schema.annotationTable e) =
    world.find? (env.schema.annotationTable e)
  graphs : ∀ name tables e t, env.resolve (.named name) = .ok tables →
    db.find? (tables.part e) = some t → env.IsSubset world e t

variable {env : Environment} {world before db db' : Database} {a : Access} {s : Store}
  {tables : TablePair} {e : Element} {t : Table} {name : String} {vs : List Value}

namespace Subsets

/-- What is known is among the annotations. -/
theorem annotated_of_known (h : env.Subsets world db) (hclosed : env.Closed world) {v : Value}
    (hv : env.Known db e v) : env.IsAnnotated world e v := by
  induction hv with
  | @held g tables e cells _ hg hcells hv =>
    cases g with
    | base =>
      obtain rfl := Except.ok.inj hg
      refine ⟨cells, ?_, hv⟩
      rw [← hcells]
      apply Schema.ids_congr
      rw [← h.annotations]
      cases e <;> rfl
    | named name =>
      obtain ⟨t, ht, _, rfl⟩ := Schema.ids_eq_ok hcells
      exact (h.graphs name tables e t hg ht).annotated _ hv
  | endpoint ht hr hcolumn =>
    exact hclosed.ends _ _ _ ((h.annotations .edge).symm.trans ht) hr hcolumn
  | stored _ ih =>
    rw [hclosed.keeps _ _ ih]
    exact ih

/-- The table of a graph, or one that is no graph's, takes the place of another. -/
theorem put (h : env.Subsets world db)
    (hother : ∀ e, Name.folded (env.schema.annotationTable e) ≠ Name.folded name)
    (hsubset : ∀ name' tables e, env.resolve (.named name') = .ok tables →
      Name.folded (tables.part e) = Name.folded name → env.IsSubset world e t) :
    env.Subsets world (db.put name t) := by
  refine ⟨fun e => ?_, fun name' tables e t' hr ht => ?_⟩
  · rw [Database.find?_put, if_neg (hother e)]
    exact h.annotations e
  · rw [Database.find?_put] at ht
    split at ht
    · next hname =>
      obtain rfl := Option.some.inj ht
      exact hsubset name' tables e hr hname
    · exact h.graphs name' tables e t' hr ht

theorem drop (h : env.Subsets world db)
    (hother : ∀ e, Name.folded (env.schema.annotationTable e) ≠ Name.folded name) :
    env.Subsets world (db.drop name) := by
  refine ⟨fun e => ?_, fun name' tables e t' hr ht => ?_⟩
  · rw [Database.find?_drop, if_neg (hother e)]
    exact h.annotations e
  · rw [Database.find?_drop] at ht
    split at ht
    · cases ht
    · exact h.graphs name' tables e t' hr ht

end Subsets

theorem isSubset_empty : env.IsSubset world e ⟨env.schema.idColumns, []⟩ := by
  refine ⟨?_, ?_⟩
  · simp [Table.affinity, Column.affinityOf, Schema.idColumns]
  · simp [Table.values]

/-- A subset with more annotated ids is a subset. -/
theorem IsSubset.append (h : env.IsSubset world e t) (hclosed : env.Closed world)
    (hhas : t.has env.schema.idColumn = true) (hvs : ∀ v ∈ vs, env.IsAnnotated world e v) :
    env.IsSubset world e (t.append (t.column env.schema.idColumn vs)) := by
  refine ⟨h.affinity, fun v hv => ?_⟩
  simp only [Table.values, Table.append, List.map_append, List.mem_append] at hv
  rcases hv with hv | hv
  · exact h.annotated v hv
  · obtain ⟨r, hr, rfl⟩ := List.mem_map.mp hv
    obtain ⟨w, hw, rfl⟩ := List.mem_map.mp hr
    have hannotated := hvs w hw
    rw [Table.get_row_self hhas, h.affinity, hclosed.keeps _ _ hannotated]
    exact hannotated

namespace Subsets

/-- Known ids are added to a graph. -/
theorem insert (h : env.Subsets world db) (hsorted : env.Sorted) (hclosed : env.Closed world)
    (htables : env.writable (.named name) = .ok tables) (hvs : ∀ v ∈ vs, env.Known db e v)
    (hdb : db.insertColumn (tables.part e) env.schema.idColumn vs = .ok db') :
    env.Subsets world db' := by
  obtain ⟨t, ht, hhas, rfl⟩ := Database.insertColumn_eq_ok hdb
  have hsubset := (h.graphs name tables e t htables ht).append hclosed hhas fun v hv =>
    h.annotated_of_known hclosed (hvs v hv)
  refine h.put (fun e' => hsorted.annotations (.graph (.named name)) _ htables e' e) ?_
  intro name' tables' e' hr heq
  obtain rfl := hsorted.kind_eq hr htables heq
  exact hsubset

/-- Every statement keeps the invariant. -/
theorem write (h : env.Subsets world db) (hsorted : env.Sorted) (hclosed : env.Closed world)
    (hw : env.Write before a db db') : env.Subsets world db' := by
  cases hw with
  | drop htables => exact h.drop fun e' => hsorted.annotations _ _ htables e' _
  | @create target _ _ _ _ htables hdb =>
    obtain ⟨_, rfl⟩ := Database.create_eq_ok hdb
    refine h.put (fun e' => hsorted.annotations _ _ htables e' _) fun name' others e hr heq => ?_
    cases target with
    | graph g => exact isSubset_empty
    | metadata name => exact absurd heq.symm (hsorted.metadata _ _ _ _ htables hr _ e)
  | insertNew htables hfound _ hdb =>
    obtain ⟨name, rfl, _⟩ := exists_name_of_writable htables
    refine h.insert hsorted hclosed htables (fun v hv => ?_) hdb
    exact (hfound.without _).known v (Value.mem_groups.mp hv)
  | insertAll htables _ _ hknown _ hdb =>
    obtain ⟨name, rfl, _⟩ := exists_name_of_writable htables
    exact h.insert hsorted hclosed htables hknown hdb
  | @tag target _ _ _ _ _ htables hdb =>
    obtain ⟨_, _, _, rfl⟩ := Database.insertMetadata_eq_ok hdb
    refine h.put (fun e' => hsorted.annotations (.metadata target) _ htables e' _) ?_
    exact fun name' others e hr heq => absurd heq.symm (hsorted.metadata _ _ _ _ htables hr _ e)

theorem issueAll [RegexLibrary] [Summation]
    (h : env.Subsets world s.database) (hsorted : env.Sorted)
    (hclosed : env.Closed world) (is : List Instruction) :
    env.Subsets world (env.issueAll s is).database :=
  issueAll_keeps (P := fun s => env.Subsets world s.database) h
    (fun _ i hs => issue_keeps hs i fun _ _ _ _ hdb hw => hdb.write hsorted hclosed hw) is

end Subsets

/-- Whatever instructions are issued, with whatever graphs for targets and sources: the annotation
tables stay as they are, and graphs that were newly made hold no ids but those of their rows. -/
theorem graphs_stay_subsets [RegexLibrary] [Summation]
    (hsorted : env.Sorted) (hclosed : env.Closed s.database)
    (hmade : ∀ name tables e t, env.resolve (.named name) = .ok tables →
      s.database.find? (tables.part e) = some t → t = ⟨env.schema.idColumns, []⟩)
    (is : List Instruction) :
    (∀ e, (env.issueAll s is).database.find? (env.schema.annotationTable e) =
      s.database.find? (env.schema.annotationTable e)) ∧
    ∀ name tables e t v, env.resolve (.named name) = .ok tables →
      (env.issueAll s is).database.find? (tables.part e) = some t →
        v ∈ t.values env.schema.idColumn → env.IsAnnotated s.database e v := by
  have hstart : env.Subsets s.database s.database := by
    refine ⟨fun _ => rfl, fun name tables e t hr ht => ?_⟩
    rw [hmade name tables e t hr ht]
    exact isSubset_empty
  have hend := hstart.issueAll hsorted hclosed is
  refine ⟨hend.annotations, fun name tables e t v hr ht => ?_⟩
  exact (hend.graphs name tables e t hr ht).annotated v

/-! ## Worlds that are closed -/

/-- A world that is loaded is closed, if it has the ends of its edges among its vertices. -/
theorem closed_of_isBase {w : World} (hbase : w.IsBase env db)
    (hends : ∀ e ∈ w.edges, ∀ v ∈ [e.child, e.parent], env.schema.idAffinity.store v ∈
      w.vertices.map fun v => env.schema.idAffinity.store v.id) : env.Closed db := by
  refine ⟨fun e v hv => ?_, fun t r column ht hr hcolumn => ?_⟩
  · obtain ⟨vs, hholds⟩ : ∃ vs, env.Holds db .base e vs := by
      cases e with
      | vertex => exact ⟨_, hbase.vertices⟩
      | edge => exact ⟨_, hbase.edges⟩
    obtain ⟨cells, hcells, hv⟩ := hv
    obtain ⟨tables, hresolve, hlists⟩ := id hholds
    obtain rfl := Except.ok.inj hresolve
    obtain rfl : cells = ⟨env.schema.idAffinity, vs⟩ := by
      cases e <;> exact Except.ok.inj (hcells.symm.trans hlists.ids)
    exact hholds.keeps v hv
  · -- the row is an edge of the world
    have hedge : env.HasEdge db .base (env.schema.arcOf r) := by
      rw [hasEdge_iff ht hbase.edges]
      obtain ⟨tables, hresolve, t', ht', _, hids⟩ := hbase.edges
      obtain rfl := Except.ok.inj hresolve
      obtain rfl : t = t' := Option.some.inj (ht.symm.trans ht')
      exact ⟨hids ▸ List.mem_map_of_mem hr, r, hr, rfl⟩
    obtain ⟨e, he, harc⟩ := (hbase.hasEdge _).mp hedge
    obtain ⟨tables, hresolve, hlists⟩ := hbase.vertices
    obtain rfl := Except.ok.inj hresolve
    refine ⟨_, hlists.ids, ?_⟩
    have hend := hends e he
    simp only [endpointColumns, List.mem_cons, List.not_mem_nil, or_false] at hcolumn
    rcases hcolumn with rfl | rfl
    · have hchild : env.schema.idAffinity.store e.child = r.get env.schema.childColumn :=
        congrArg Arc.child harc
      exact hchild ▸ hend e.child (by simp)
    · have hparent : env.schema.idAffinity.store e.parent = r.get env.schema.parentColumn :=
        congrArg Arc.parent harc
      exact hparent ▸ hend e.parent (by simp)

/-- A graph that is searched from and written to at once. -/
theorem graphs_stay_subsets_chain :
    Program.wp (do
      (SmallWorld.world ["a", "b", "c"] SmallWorld.chain).load oneGraph.schema
      oneGraph.createEmpty (.named "g"))
      (fun _ s => oneGraph.Sorted ∧ oneGraph.Closed s.database ∧
        ∃ t, (oneGraph.issueAll s [addVertex, searchFromGraph]).database.find?
            (oneGraph.graphTables "g").vertices = some t ∧
          .text "a" ∈ t.values "hash" ∧
          ∀ v ∈ t.values "hash", oneGraph.IsAnnotated s.database .vertex v)
      SmallWorld.start := by
  refine wp_oneGraph.mono fun _ s h => ?_
  obtain ⟨hw, hfresh, hscratch⟩ := h
  have hclosed : oneGraph.Closed s.database := closed_of_isBase hw (by decide)
  obtain ⟨t, ht, ha⟩ := mem_of_addThenSearch hw (by decide) hfresh hscratch
  have hstay := graphs_stay_subsets oneGraph_sorted hclosed (fun name tables e t hr ht => by
    obtain rfl := resolve_oneGraph hr
    exact Option.some.inj (ht.symm.trans (hfresh.made e))) [addVertex, searchFromGraph]
  have hg : oneGraph.resolve (.named "g") = .ok (oneGraph.graphTables "g") := rfl
  exact ⟨oneGraph_sorted, hclosed, t, ht, ha, fun v => hstay.2 "g" _ .vertex t v hg ht⟩

end Environment
end Provenance
