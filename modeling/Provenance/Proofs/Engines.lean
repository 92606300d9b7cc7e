-- SUMMARY: Lineage by statements and lineage by questions to a source find the same.
import Provenance.Proofs.Lineage
import Provenance.Proofs.Exploration

/-!
# Two ways to lineage

Lineage is found by statements over tables of ids, a whole layer at once, or by questions to a
source, vertex by vertex. Where all ids are texts and the ends of edges are vertices, both find the
same vertices and edges, whether the source is the annotation tables or the same graph in memory.
-/
namespace Provenance

namespace Environment

/-- The graph in memory is the same as the base graph, as far as ids and ends of edges go. -/
structure Mirrors (env : Environment) (db : Database) (vertices : Table) (g : MemoryGraph) :
    Prop where
  wellFormed : g.WellFormed
  vertices : ∀ u, u ∈ g.vertexIds ↔ .text u ∈ vertices.values env.schema.idColumn
  edges : ∀ a, env.HasEdge db .base a ↔ ∃ e ∈ g.edges, e.arc = a

/-- The sources over a world: its tables, and any graph in memory that is the same. -/
inductive IsSource (env : Environment) (db : Database) (vertices : Table) : Source → Prop where
  | tables : IsSource env db vertices (.tables env.schema db)
  | memory {g : MemoryGraph} (h : env.Mirrors db vertices g) : IsSource env db vertices (.graph g)

variable {env : Environment} {db : Database} {vertices edges : Table} {source : Source}

/-- Either source answers about elements with the edges of the base graph. -/
theorem IsSource.exists_answers [RegexLibrary] (h : env.IsSource db vertices source)
    (hworld : env.IsTextWorld db vertices edges) :
    ∃ vs es, source.Answers vs es ∧ ∀ a, env.HasEdge db .base a ↔ ∃ e ∈ es, e.arc = a := by
  cases h with
  | tables => exact ⟨_, _, hworld.answers, fun _ => hworld.hasEdge_iff⟩
  | memory h => exact ⟨_, _, h.wellFormed.answers, h.edges⟩

/-- A search without predicates begins with all vertices. -/
theorem IsSource.exists_vertices [RegexLibrary] (h : env.IsSource db vertices source)
    (hworld : env.IsTextWorld db vertices edges) :
    ∃ found, source.vertices [] = .ok found ∧
      ∀ v, v ∈ vertices.values env.schema.idColumn ↔ ∃ x ∈ found, .text x.id = v := by
  cases h with
  | tables =>
    refine ⟨vertices.rows.map (env.schema.vertexOf vertices), ?_, fun v => ?_⟩
    · simp [Source.vertices, hworld.tableWith_vertices, Source.selectRows, Sql.joinedDepth]
    · simp only [Table.values, List.mem_map, exists_exists_and_eq_and]
      refine exists_congr fun r => and_congr_right fun hr => ?_
      obtain ⟨u, hu⟩ := hworld.vertexTexts r hr
      simp [Schema.vertexOf, hu]
  | @memory g h =>
    refine ⟨g.vertices, rfl, fun v => ?_⟩
    constructor
    · intro hv
      obtain ⟨r, hr, rfl⟩ := List.mem_map.mp hv
      obtain ⟨u, hu⟩ := hworld.vertexTexts r hr
      rw [hu] at hv ⊢
      obtain ⟨x, hx, hid⟩ := List.mem_map.mp ((h.vertices u).mpr hv)
      exact ⟨x, hx, congrArg Value.text hid⟩
    · rintro ⟨x, hx, rfl⟩
      exact (h.vertices _).mp (List.mem_map_of_mem hx)

end Environment

/-! ## Walks over texts -/

section Texts

variable {E : Arc → Prop} {es : List Edge} {found : List Vertex} {vs : List Value} {k : Nat}
  (hE : ∀ a, E a ↔ ∃ e ∈ es, e.arc = a) (hids : ∀ v, v ∈ vs ↔ ∃ x ∈ found, .text x.id = v)

include hE

theorem leads_text_iff (way : Way) (u : String) (w : Value) :
    Leads E way (.text u) w ↔
      ∃ v, Source.Expands es (fun _ => False) way u v ∧ .text v = w := by
  constructor
  · rintro ⟨a, ha, hnear, rfl, _⟩
    obtain ⟨e, he, rfl⟩ := (hE a).mp ha
    rw [e.near_arc, Value.text.injEq] at hnear
    exact ⟨e.far way, ⟨id, e, he, hnear, rfl⟩, (e.far_arc way).symm⟩
  · rintro ⟨v, ⟨_, e, he, rfl, rfl⟩, rfl⟩
    exact ⟨e.arc, (hE _).mpr ⟨e, he, rfl⟩, e.near_arc way, e.far_arc way, by simp, by simp⟩

include hids

/-- From texts, walks lead to texts, over the same edges. -/
theorem within_text_iff (way : Way) (n : Nat) (w : Value) :
    Within (Leads E way) (· ∈ vs) n w ↔
      ∃ u, Within (Source.Expands es (fun _ => False) way) (Source.Starts found) n u ∧
        .text u = w := by
  refine Within.image_iff (leads_text_iff hE way) fun w => (hids w).trans ?_
  simp [Source.Starts]

theorem inLineage_text_iff (ways : List Way) (w : Value) :
    InLineage E ways (· ∈ vs) k w ↔ ∃ u, (∃ way ∈ ways,
      Within (Source.Expands es (fun _ => False) way) (Source.Starts found) k u) ∧
        .text u = w := by
  simp only [InLineage, within_text_iff hE hids]
  constructor
  · rintro ⟨way, hway, u, hu, rfl⟩
    exact ⟨u, ⟨way, hway, hu⟩, rfl⟩
  · rintro ⟨u, ⟨way, hway, hu⟩, rfl⟩
    exact ⟨way, hway, u, hu, rfl⟩

theorem crossedByLineage_text_iff (ways : List Way) (w : Value) :
    CrossedByLineage E ways (· ∈ vs) k w ↔ ∃ j, (∃ way ∈ ways, ∃ e ∈ es, e.id = j ∧ ¬ False ∧
      ∃ n < k, Within (Source.Expands es (fun _ => False) way) (Source.Starts found) n
        (e.near way)) ∧ .text j = w := by
  have hwithin {way : Way} {n : Nat} {u : String} : Within (Leads E way) (· ∈ vs) n (.text u) ↔
      Within (Source.Expands es (fun _ => False) way) (Source.Starts found) n u := by
    rw [within_text_iff hE hids]
    simp
  constructor
  · rintro ⟨way, hway, a, ha, rfl, n, hn, hw⟩
    obtain ⟨e, he, rfl⟩ := (hE a).mp ha
    rw [e.near_arc, hwithin] at hw
    exact ⟨e.id, ⟨way, hway, e, he, rfl, id, n, hn, hw⟩, rfl⟩
  · rintro ⟨_, ⟨way, hway, e, he, rfl, _, n, hn, hw⟩, rfl⟩
    refine ⟨way, hway, e.arc, (hE _).mpr ⟨e, he, rfl⟩, rfl, n, hn, ?_⟩
    rw [e.near_arc, hwithin]
    exact hw

end Texts

namespace Environment

variable {env : Environment} {s : Store} {target : String} {tables : TablePair} {start : GraphRef}
  {vs : List Value} {vertices edges : Table} {source : Source}
  {ps : List Predicate} {found : List Vertex}

/-- A search vertex by vertex in which no vertex is remote succeeds where it has a start, and finds
exactly the vertices and edges that a search over tables from the same start leaves in a fresh
target. -/
theorem lineage_engines_agree [RegexLibrary] (hscratch : s.CanScratch)
    (htarget : env.Fresh s.database target tables)
    (hworld : env.IsTextWorld s.database vertices edges)
    (hsource : env.IsSource s.database vertices source) (hfound : source.vertices ps = .ok found)
    (hsome : found ≠ []) (hstart : env.Holds s.database start .vertex vs)
    (hids : ∀ v, v ∈ vs ↔ ∃ x ∈ found, .text x.id = v) (k : Nat) (direction : Direction) :
    ∃ g, source.lineage (fun _ => false) ps k direction = .ok g ∧
      (env.lineage (.named target) .base start k direction).wp
        (fun _ s' =>
          env.schema.ListsOnce s'.database tables.vertices
            (fun v => ∃ x ∈ g.vertices, .text x.id = v) ∧
          env.schema.ListsOnce s'.database tables.edges
            (fun v => ∃ e ∈ g.edges, .text e.id = v)) s := by
  obtain ⟨xs, es, hanswers, hE⟩ := hsource.exists_answers hworld
  have hnear (ys : List Vertex) : ∀ y ∈ ys, (fun _ => false) y = true ↔ False := by simp
  obtain ⟨g, hg, hvertices, hedges⟩ := Source.exists_lineage (R := fun _ => False) hanswers
    (hnear xs) (hnear found) hfound hsome k direction
  have hnull : .null ∉ vs := by
    intro hin
    obtain ⟨_, _, htext⟩ := (hids _).mp hin
    cases htext
  refine ⟨g, hg, (wp_lineage hscratch htarget hworld.hasEdgeTable hworld.holds_edges hstart hnull k
    direction).mono fun _ s' h => ⟨h.vertices.congr fun v => ?_, h.edges.congr fun v => ?_⟩⟩
  · rw [inLineage_text_iff hE hids]
    simp only [← hvertices, MemoryGraph.vertexIds, List.mem_map, exists_exists_and_eq_and]
  · rw [crossedByLineage_text_iff hE hids]
    simp only [← hedges, MemoryGraph.edgeIds, List.mem_map, exists_exists_and_eq_and]

end Environment

/-! ## Loaded worlds -/

namespace World

variable {w : World} {env : Environment} {s : Store}

structure HasTextIds (w : World) : Prop where
  vertices : ∀ v ∈ w.vertices, ∃ u, v.id = .text u
  edges : ∀ e ∈ w.edges, ∃ i, e.id = .text i
  ends : ∀ e ∈ w.edges, (∃ v ∈ w.vertices, v.id = e.child) ∧ ∃ v ∈ w.vertices, v.id = e.parent

/-- Texts are kept as they are. -/
theorem store_text {v : Value} (hv : ∃ u, v = .text u) : Affinity.text.store v = v := by
  obtain ⟨u, rfl⟩ := hv
  rfl

section Texts

variable (htext : env.schema.idAffinity = .text) (htexts : w.HasTextIds)

include htext htexts

theorem HasTextIds.ids_filled (keys : List String) :
    (filled env.schema [env.schema.idColumn] keys
      (w.vertices.map fun v => v.id :: cellsOf keys v.annotations)).values env.schema.idColumn =
        w.vertices.map (·.id) := by
  rw [World.ids_filled htext, List.map_map]
  exact List.map_congr_left fun v hv => store_text (htexts.vertices v hv)

/-- Every row of the edge table is an edge of the world. -/
theorem HasTextIds.exists_edge (hcolumns : env.schema.reserved.Nodup) {keys : List String} {r : Row}
    (hr : r ∈ (filled env.schema env.schema.reserved keys
      (w.edges.map fun e => [e.id, e.child, e.parent] ++ cellsOf keys e.annotations)).rows) :
    ∃ e ∈ w.edges, env.schema.arcOf r = ⟨e.id, e.child, e.parent⟩ := by
  have hin := List.mem_map_of_mem (f := env.schema.arcOf) hr
  rw [arcs_filled htext hcolumns] at hin
  obtain ⟨e, he, heq⟩ := List.mem_map.mp hin
  obtain ⟨⟨c, hc, hchild⟩, ⟨p, hp, hparent⟩⟩ := htexts.ends e he
  refine ⟨e, he, heq.symm.trans ?_⟩
  simp only [WorldEdge.arc, htext, store_text (htexts.edges e he), ← hchild, ← hparent,
    store_text (htexts.vertices c hc), store_text (htexts.vertices p hp)]

/-- A world of texts is one for either search once it is loaded. -/
theorem wp_load_texts (hw : w.CanLoad env.schema) (hcolumns : env.schema.reserved.Nodup) :
    (w.load env.schema).wp (fun _ s' => ∃ vertices edges,
      env.IsTextWorld s'.database vertices edges ∧
        vertices.values env.schema.idColumn = w.vertices.map (·.id)) s := by
  refine (load_tables hw).mono fun _ s' h => ?_
  obtain ⟨vertexKeys, edgeKeys, hv, he, _⟩ := h
  have hids := htexts.ids_filled htext vertexKeys
  refine ⟨_, _, ⟨hv, he, keepsIds_filled htext (by simp), fun column hcolumn =>
    keepsIds_filled htext (List.mem_append_left _ hcolumn), ?_, fun r hr => ?_, fun r hr => ?_,
    fun r hr column hcolumn => ?_⟩, hids⟩
  · exact Column.nodup_foldl_declare (by simp)
  · have hin : r.get env.schema.idColumn ∈ w.vertices.map (·.id) :=
      hids ▸ List.mem_map_of_mem (f := fun r : Row => r.get env.schema.idColumn) hr
    obtain ⟨v, hv, hid⟩ := List.mem_map.mp hin
    rw [← hid]
    exact htexts.vertices v hv
  · obtain ⟨e, he, heq⟩ := htexts.exists_edge htext hcolumns hr
    rw [show r.get env.schema.idColumn = e.id from congrArg Arc.id heq]
    exact htexts.edges e he
  · obtain ⟨e, he, heq⟩ := htexts.exists_edge htext hcolumns hr
    have hends := htexts.ends e he
    rw [hids, List.mem_map]
    simp only [List.mem_cons, List.not_mem_nil, or_false] at hcolumn
    rcases hcolumn with rfl | rfl
    · rw [show r.get env.schema.childColumn = e.child from congrArg Arc.child heq]
      exact hends.1
    · rw [show r.get env.schema.parentColumn = e.parent from congrArg Arc.parent heq]
      exact hends.2

end Texts

end World

namespace Environment

variable {env : Environment} {db db' : Database} {vertices edges : Table}

theorem IsTextWorld.of_same {names : List String} (h : env.IsTextWorld db vertices edges)
    (hs : Database.SameBut names db db')
    (ho : ∀ e, ∀ name ∈ names, Name.folded (env.schema.annotationTable e) ≠ Name.folded name) :
    env.IsTextWorld db' vertices edges :=
  { h with
    vertexTable := (hs _ (ho .vertex)).trans h.vertexTable
    edgeTable := (hs _ (ho .edge)).trans h.edgeTable }

/-- The graph in memory that is built from the elements of a world is the same as the base graph,
if no two edges have one id. -/
theorem mirrors_ofElements (h : env.IsTextWorld db vertices edges) {xs : List Vertex}
    {es : List Edge}
    (hvertices : ∀ v, v ∈ vertices.values env.schema.idColumn ↔ ∃ x ∈ xs, .text x.id = v)
    (hedges : ∀ a, env.HasEdge db .base a ↔ ∃ e ∈ es, e.arc = a) (hids : (es.map (·.id)).Nodup) :
    env.Mirrors db vertices (.ofElements xs es) := by
  have hends (e : Edge) (he : e ∈ es) :
      (∃ x ∈ xs, x.id = e.child) ∧ ∃ x ∈ xs, x.id = e.parent := by
    obtain ⟨_, hfrom⟩ := (hasEdge_iff h.edgeTable h.holds_edges).mp
      ((hedges e.arc).mpr ⟨e, he, rfl⟩)
    obtain ⟨r, hr, heq⟩ := hfrom
    have hvertex {u : String} {column : String} (hu : r.get column = .text u)
        (hcolumn : column ∈ [env.schema.childColumn, env.schema.parentColumn]) :
        ∃ x ∈ xs, x.id = u := by
      obtain ⟨x, hx, hid⟩ := (hvertices _).mp (h.ends r hr column hcolumn)
      exact ⟨x, hx, by simpa [hu] using hid⟩
    exact ⟨hvertex (congrArg Arc.child heq) (by simp), hvertex (congrArg Arc.parent heq) (by simp)⟩
  have hadds := MemoryGraph.adds_ofElements hends
  refine ⟨hadds.wellFormed (MemoryGraph.wellFormed_empty none), fun u => ?_, fun a => ?_⟩
  · rw [hadds.vertices, hvertices]
    simp [MemoryGraph.vertexIds, MemoryGraph.empty, eq_comm]
  · rw [hedges, MemoryGraph.edges_ofElements hids]

end Environment

/-! ### A small world -/

namespace SmallWorld

/-- The graph in memory of the same vertices and edges. -/
def memory (vertices : List String) (edges : List (String × String × String)) : MemoryGraph :=
  .ofElements (vertices.map fun v => ⟨v, .empty⟩)
    (edges.map fun edge => ⟨edge.1, edge.2.1, edge.2.2, .empty⟩)

/-- Over a walk of two edges both searches agree, from the tables and from memory. -/
theorem lineage_engines_agree_chain :
    Program.wp (do
      (world ["a", "b", "c"] chain).load environment.schema
      environment.createEmpty (.named "out"))
      (fun _ s => ∀ source ∈ [Source.tables environment.schema s.database,
          .graph (memory ["a", "b", "c"] chain)],
        ∃ g, source.lineage (fun _ => false) [] (2 : ℕ) .ancestor = .ok g ∧
          (environment.lineage (.named "out") .base .base (2 : ℕ) .ancestor).wp
            (fun _ s' =>
              environment.schema.ListsOnce s'.database (tables "out").vertices
                (fun v => ∃ x ∈ g.vertices, .text x.id = v) ∧
              environment.schema.ListsOnce s'.database (tables "out").edges
                (fun v => ∃ e ∈ g.edges, .text e.id = v)) s)
      start := by
  have htexts : (world ["a", "b", "c"] chain).HasTextIds := by
    constructor <;> simp [world, chain]
  refine .bind ((wp_load.and (World.wp_load_texts idAffinity_eq htexts (canLoad _ _)
    (by decide))).mono fun _ s₁ h₁ => ?_)
  obtain ⟨hloaded, vertices, edges, hworld₁, hids⟩ := h₁
  refine (wp_createEmpty (by simp) hloaded).mono fun _ s₂ h₂ => ?_
  obtain ⟨hloaded₂, hfresh, hsame⟩ := h₂
  have hworld := hworld₁.of_same hsame fun e name hname => by
    simp only [List.mem_cons, List.not_mem_nil, or_false] at hname
    rcases hname with rfl | rfl
    · exact annotationTable_ne (by simp) e .vertex
    · exact annotationTable_ne (by simp) e .edge
  have hmirrors : environment.Mirrors s₂.database vertices (memory ["a", "b", "c"] chain) := by
    refine Environment.mirrors_ofElements hworld (fun v => ?_) (fun a => ?_) (by decide)
    · rw [hids]
      simp [world, eq_comm]
    · rw [hloaded₂.base.hasEdge, ← List.mem_map, arcs_world, mem_chain]
      simp [chain, arc, Edge.arc, eq_comm]
  intro source hin
  have hsource : environment.IsSource s₂.database vertices source := by
    simp only [List.mem_cons, List.not_mem_nil, or_false] at hin
    rcases hin with rfl | rfl
    · exact .tables
    · exact .memory hmirrors
  obtain ⟨found, hfound, hvertices⟩ := hsource.exists_vertices hworld
  have hsome : found ≠ [] := by
    rintro rfl
    have hnone := hvertices (.text "a")
    rw [hids] at hnone
    simp [world] at hnone
  exact Environment.lineage_engines_agree hloaded₂.canScratch hfresh hworld hsource hfound hsome
    hworld.holds_vertices hvertices 2 .ancestor

end SmallWorld
end Provenance
