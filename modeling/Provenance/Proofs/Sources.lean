-- SUMMARY: The vertices and edges that a source answers about.
import Provenance.Proofs.MemoryGraphs
import Provenance.Proofs.GraphContents
import Provenance.Memory.Exploration

/-!
# What sources answer

A source answers about certain vertices and edges: neighbours are the vertices at the other ends of
a vertex's edges, and edges are found by both of their ends. A well-formed graph in memory answers
about its own elements. Annotation tables answer about the elements that their rows stand for, where
ids are texts and the ends of edges are vertices.
-/
namespace Provenance

namespace Edge

/-- The end of the edge from which a way sets out. -/
def near (e : Edge) : Way → String
  | .ancestor => e.child
  | .descendant => e.parent

/-- The end at which a way arrives. -/
def far (e : Edge) : Way → String
  | .ancestor => e.parent
  | .descendant => e.child

/-- The edge as searches over tables see it. -/
def arc (e : Edge) : Arc := ⟨.text e.id, .text e.child, .text e.parent⟩

theorem near_arc (e : Edge) (way : Way) : e.arc.near way = .text (e.near way) := by
  cases way <;> rfl

theorem far_arc (e : Edge) (way : Way) : e.arc.far way = .text (e.far way) := by
  cases way <;> rfl

end Edge

theorem Source.endpointsAlong_eq_iff {e : Edge} {way : Way} {id neighbour : String} :
    e.child = (endpointsAlong way id neighbour).1 ∧ e.parent = (endpointsAlong way id neighbour).2 ↔
      e.near way = id ∧ e.far way = neighbour := by
  cases way with
  | ancestor => rfl
  | descendant => exact and_comm

/-- The source answers about these vertices and edges, and both ends of each edge are vertices. -/
structure Source.Answers [RegexLibrary] (source : Source) (vs : List Vertex) (es : List Edge) : Prop where
  neighbours : ∀ way id, ∃ found, source.neighbours way id = .ok found ∧
    ∀ x, x ∈ found ↔ x ∈ vs ∧ ∃ e ∈ es, e.near way = id ∧ e.far way = x.id
  edgesBetween : ∀ child parent, ∃ found, source.edgesBetween child parent = .ok found ∧
    ∀ e, e ∈ found ↔ e ∈ es ∧ e.child = child ∧ e.parent = parent
  ends : ∀ e ∈ es, ∀ way, ∃ x ∈ vs, x.id = e.far way

/-! ## Lists of entries -/

section Entries

variable {β : Type} {x : β}

theorem lookup_eq_some_iff_mem {κ : Type} [BEq κ] [LawfulBEq κ] {entries : List (κ × β)} {key : κ}
    (h : (entries.map (·.1)).Nodup) : entries.lookup key = some x ↔ (key, x) ∈ entries := by
  induction entries with
  | nil => simp
  | cons entry entries ih =>
    obtain ⟨key', x'⟩ := entry
    obtain ⟨hnew, hrest⟩ := List.nodup_cons.mp h
    by_cases hkey : key = key'
    · subst hkey
      have hother : (key, x) ∉ entries := fun hmem =>
        hnew (List.mem_map.mpr ⟨(key, x), hmem, rfl⟩)
      simp [hother, eq_comm]
    · simpa [List.lookup_cons, beq_false_of_ne hkey, hkey] using ih hrest

theorem keys_replace (entries : List (String × β)) (key : String) (x : β) :
    (entries.map fun entry => if entry.1 = key then (key, x) else entry).map (·.1) =
      entries.map (·.1) := by
  rw [List.map_map]
  refine List.map_congr_left fun entry _ => ?_
  by_cases hkey : entry.1 = key <;> simp [hkey]

theorem lookup_replace (entries : List (String × β)) (key : String) (x : β) (k : String) :
    (entries.map fun entry => if entry.1 = key then (key, x) else entry).lookup k =
      if k = key then (entries.lookup k).map fun _ => x else entries.lookup k := by
  induction entries with
  | nil => simp
  | cons entry entries ih =>
    obtain ⟨key', text'⟩ := entry
    by_cases hkey : key' = key
    · subst hkey
      by_cases hk : k = key'
      · subst hk
        simp
      · have hb : (k == key') = false := beq_false_of_ne hk
        simpa [List.lookup_cons, hb, hk] using ih
    · by_cases hk : k = key'
      · subst hk
        simp [hkey]
      · have hb : (k == key') = false := beq_false_of_ne hk
        simpa [List.lookup_cons, hkey, hb] using ih

end Entries

/-! ## Graphs in memory -/

namespace Annotations

theorem get?_insert (a : Annotations) (key text k : String) :
    (a.insert key text).get? k = if k = key then some text else a.get? k := by
  unfold insert
  split
  · next hknown =>
    obtain ⟨known, hknown⟩ := Option.isSome_iff_exists.mp hknown
    simp only [get?, lookup_replace]
    by_cases hk : k = key
    · subst hk
      simp [show a.entries.lookup k = some known from hknown]
    · simp [hk]
  · next hnew =>
    have hnew : a.entries.lookup key = none := Option.not_isSome_iff_eq_none.mp hnew
    by_cases hk : k = key
    · subst hk
      simp [get?, List.lookup_append, hnew]
    · have hb : (k == key) = false := beq_false_of_ne hk
      simp [get?, List.lookup_append, List.lookup_cons, hb, hk]

end Annotations

theorem Edge.get?_values_child (e : Edge) : e.values.get? childKey = some e.child := by
  have hne : childKey ≠ parentKey := by decide
  simp [values, withEndpoints, Annotations.get?_insert, hne]

theorem Edge.get?_values_parent (e : Edge) : e.values.get? parentKey = some e.parent := by
  simp [values, withEndpoints, Annotations.get?_insert]

theorem Predicate.filterElements_equal [RegexLibrary] {α : Type} {values : α → Annotations} {key : String}
    {cell : α → String} (hkey : key ≠ wildcard)
    (hvalues : ∀ x, (values x).get? key = some (cell x)) (text : String) (xs : List α) :
    (⟨key, .equal, text⟩ : Predicate).filterElements values xs =
      .ok (xs.filter fun x => cell x = text) := by
  simp [filterElements, isFaulty, admitsValues, isWildcard, hkey, hvalues, Operator.admitsText]

namespace MemoryGraph

variable {g : MemoryGraph}

theorem WellFormed.mem_verticesOf (h : g.WellFormed) {ids : List String} {v : Vertex} :
    v ∈ g.verticesOf ids ↔ v ∈ g.vertices ∧ v.id ∈ ids := by
  simp only [verticesOf, List.mem_filterMap, List.mem_eraseDups, h.findVertex?_eq_some]
  constructor
  · rintro ⟨_, hin, hv, rfl⟩
    exact ⟨hv, hin⟩
  · exact fun ⟨hv, hin⟩ => ⟨v.id, hin, hv, rfl⟩

/-- Both questions for neighbours go from one end of the edges to the other. -/
theorem neighbours_eq (g : MemoryGraph) (way : Way) (id : String) :
    (Source.graph g).neighbours way id = .ok (if g.hasVertex id then
      g.verticesOf ((g.edges.filter (·.near way = id)).map (·.far way)) else []) := by
  by_cases hid : g.hasVertex id = true
  · obtain ⟨v, hv⟩ := Option.isSome_iff_exists.mp hid
    have hvid : v.id = id := by simpa using List.find?_some hv
    rw [if_pos hid]
    cases way with
    | ancestor =>
      simp only [Source.neighbours, Source.parents, if_pos hid, parents, vertex, hv, ok_bind, hvid]
      rfl
    | descendant =>
      simp only [Source.neighbours, Source.children, if_pos hid, children, vertex, hv, ok_bind,
        hvid]
      rfl
  · cases way <;> simp [Source.neighbours, Source.parents, Source.children, hid]

/-- A well-formed graph answers about its own elements. -/
theorem WellFormed.answers [RegexLibrary] (h : g.WellFormed) : (Source.graph g).Answers g.vertices g.edges where
  neighbours way id := by
    refine ⟨_, neighbours_eq g way id, fun x => ?_⟩
    by_cases hid : g.hasVertex id = true
    · simp [hid, h.mem_verticesOf, and_assoc]
    · -- an edge there would have the vertex for its end
      have hnone (e : Edge) (he : e ∈ g.edges) : e.near way ≠ id := by
        rintro rfl
        have hends := h.ends e he
        cases way with
        | ancestor => exact hid (hasVertex_iff.mpr hends.1)
        | descendant => exact hid (hasVertex_iff.mpr hends.2)
      simp only [hid, if_false, Bool.false_eq_true, List.not_mem_nil, false_iff]
      rintro ⟨_, e, he, hnear, _⟩
      exact hnone e he hnear
  edgesBetween child parent := by
    refine ⟨(g.edges.filter (·.child = child)).filter (·.parent = parent), ?_, fun e => ?_⟩
    · have hc := Predicate.filterElements_equal (by decide) Edge.get?_values_child child g.edges
      have hp := Predicate.filterElements_equal (by decide) Edge.get?_values_parent parent
        (g.edges.filter (·.child = child))
      simp [Source.edgesBetween, Source.edges, hc, hp]
    · simp only [List.mem_filter, decide_eq_true_eq, and_assoc]
  ends e he way := by
    have hends := h.ends e he
    cases way with
    | ancestor => exact List.mem_map.mp hends.2
    | descendant => exact List.mem_map.mp hends.1

end MemoryGraph

/-! ## Tables -/

namespace Environment

/-- All ids are texts, and both ends of every edge are vertices. An id may occur in several rows,
but the name of a column only once. -/
structure IsTextWorld (env : Environment) (db : Database) (vertices edges : Table) : Prop where
  vertexTable : db.find? env.schema.vertexTable = some vertices
  edgeTable : db.find? env.schema.edgeTable = some edges
  vertexIds : env.schema.KeepsIds vertices env.schema.idColumn
  edgeIds : ∀ column ∈ env.schema.reserved, env.schema.KeepsIds edges column
  names : edges.names.Nodup
  vertexTexts : ∀ r ∈ vertices.rows, ∃ u, r.get env.schema.idColumn = .text u
  edgeTexts : ∀ r ∈ edges.rows, ∃ i, r.get env.schema.idColumn = .text i
  ends : ∀ r ∈ edges.rows, ∀ column ∈ [env.schema.childColumn, env.schema.parentColumn],
    r.get column ∈ vertices.values env.schema.idColumn

end Environment

@[simp] theorem Value.label_text (s : String) : (Value.text s).label = s := rfl

namespace Predicate

/-- A test for an id selects the rows with this id. -/
theorem filterRows_equal [RegexLibrary] {schema : Schema} (key text : String) (t : Table) {column : String}
    {rows : List Row} (hreserved : schema.isReserved column = true)
    (htexts : ∀ r ∈ rows, ∃ u, r.get column = .text u) :
    (⟨key, .equal, text⟩ : Predicate).filterRows schema t [column] rows =
      .ok (rows.filter fun r => r.get column = .text text) := by
  simp only [filterRows, fails, Bool.false_eq_true, if_false, Except.ok.injEq]
  apply List.filter_congr
  intro r hr
  obtain ⟨u, hu⟩ := htexts r hr
  simp [admitsRow, Schema.operandForm, hreserved, Schema.comparedCell, hu, Operator.admits,
    Value.asText, Value.text?, Value.canonical]

end Predicate

theorem Affinity.eq_of_store_text {a : Affinity} {s t : String} (h : a.store (.text s) = .text t) :
    s = t := by
  cases a with
  | text => simpa [store, Value.asText] using h
  | blob => simpa using h
  | _ =>
    simp only [store] at h
    split at h
    · cases h
    · simpa using h

namespace Environment.IsTextWorld

variable {env : Environment} {db : Database} {vertices edges : Table}

theorem isEdgeTable (h : env.IsTextWorld db vertices edges) : env.IsEdgeTable edges := by
  refine ⟨h.edgeIds, fun hnull => ?_⟩
  obtain ⟨r, hr, hid⟩ := List.mem_map.mp hnull
  obtain ⟨i, hi⟩ := h.edgeTexts r hr
  simp [hi] at hid

theorem holds_vertices (h : env.IsTextWorld db vertices edges) :
    env.Holds db .base .vertex (vertices.values env.schema.idColumn) :=
  ⟨_, rfl, _, h.vertexTable, h.vertexIds, rfl⟩

theorem holds_edges (h : env.IsTextWorld db vertices edges) :
    env.Holds db .base .edge (edges.values env.schema.idColumn) :=
  ⟨_, rfl, _, h.edgeTable, h.edgeIds _ (by simp), rfl⟩

theorem hasEdgeTable (h : env.IsTextWorld db vertices edges) : env.HasEdgeTable db :=
  ⟨edges, h.edgeTable, h.isEdgeTable⟩

/-- The reserved cells of an edge are texts, in the form in which ids are kept. -/
theorem exists_text (h : env.IsTextWorld db vertices edges) {r : Row} (hr : r ∈ edges.rows)
    (column : String) (hcolumn : column ∈ env.schema.reserved) :
    ∃ u, r.get column = .text u ∧ env.schema.idAffinity.store (.text u) = .text u := by
  have hkept := (h.edgeIds column hcolumn).stored _ (List.mem_map_of_mem hr)
  have htext : ∃ u, r.get column = .text u := by
    rcases List.mem_cons.mp hcolumn with rfl | hcolumn
    · exact h.edgeTexts r hr
    · obtain ⟨r', hr', heq⟩ := List.mem_map.mp (h.ends r hr column hcolumn)
      obtain ⟨u, hu⟩ := h.vertexTexts r' hr'
      exact ⟨u, heq ▸ hu⟩
  obtain ⟨u, hu⟩ := htext
  exact ⟨u, hu, hu ▸ hkept⟩

/-- Rows stand for the edges that searches see. -/
theorem arc_edgeOf (h : env.IsTextWorld db vertices edges) {r : Row} (hr : r ∈ edges.rows) :
    (env.schema.edgeOf edges r).arc = env.schema.arcOf r := by
  obtain ⟨i, hi, _⟩ := h.exists_text hr _ env.schema.idColumn_mem_reserved
  obtain ⟨c, hc, _⟩ := h.exists_text hr _ env.schema.childColumn_mem_reserved
  obtain ⟨p, hp, _⟩ := h.exists_text hr _ env.schema.parentColumn_mem_reserved
  simp [Edge.arc, Schema.edgeOf, Schema.arcOf, hi, hc, hp]

theorem hasEdge_iff (h : env.IsTextWorld db vertices edges) {a : Arc} :
    env.HasEdge db .base a ↔ ∃ e ∈ edges.rows.map (env.schema.edgeOf edges), e.arc = a := by
  rw [Environment.hasEdge_iff h.edgeTable h.holds_edges]
  constructor
  · rintro ⟨_, r, hr, rfl⟩
    exact ⟨_, List.mem_map_of_mem hr, h.arc_edgeOf hr⟩
  · rintro ⟨_, he, rfl⟩
    obtain ⟨r, hr, rfl⟩ := List.mem_map.mp he
    rw [h.arc_edgeOf hr]
    exact ⟨List.mem_map_of_mem hr, r, hr, rfl⟩

theorem tableWith_vertices (h : env.IsTextWorld db vertices edges) :
    db.tableWith env.schema.vertexTable [env.schema.idColumn] = .ok vertices :=
  Database.tableWith_of_find? h.vertexTable (by simp [h.vertexIds.has])

theorem tableWith_edges (h : env.IsTextWorld db vertices edges) (columns : List String)
    (hcolumns : ∀ column ∈ columns, column ∈ env.schema.reserved) :
    db.tableWith env.schema.edgeTable columns = .ok edges :=
  Database.tableWith_of_find? h.edgeTable fun column hin =>
    (h.edgeIds column (hcolumns column hin)).has

theorem isReserved {column : String} (hcolumn : column ∈ env.schema.reserved) :
    env.schema.isReserved column = true := by
  simpa [Schema.isReserved] using hcolumn

/-! ### Neighbours -/

/-- An id that is asked for is taken in the form of the column, which is that of no other id. -/
theorem selects_sameAs (h : env.IsTextWorld db vertices edges) {r : Row} (hr : r ∈ edges.rows)
    {column : String} (hcolumn : column ∈ env.schema.reserved) (id : String) :
    ((r.get column).sameAs ((edges.affinity column).store (.text id))).selects = true ↔
      r.get column = .text id := by
  obtain ⟨u, hu, hkept⟩ := h.exists_text hr column hcolumn
  rw [(h.edgeIds column hcolumn).affinity, hu, Value.sameAs, Value.selects_equals_iff]
  constructor
  · rintro ⟨_, heq⟩
    have hstored : env.schema.idAffinity.store (.text id) = .text u := by
      cases hs : env.schema.idAffinity.store (.text id) <;> simp_all [Value.canonical]
    rw [Affinity.eq_of_store_text hstored]
  · intro heq
    obtain rfl : u = id := by simpa using heq
    simp [hkept, Value.canonical]

/-- The neighbours are the vertices with the ids at the far ends. -/
theorem neighboursIn (h : env.IsTextWorld db vertices edges) {near far : String}
    (hnear : near ∈ env.schema.reserved) (hfar : far ∈ env.schema.reserved) (id : String) :
    ∃ found, Source.neighboursIn env.schema db id near far = .ok found ∧
      ∀ x, x ∈ found ↔ ∃ r ∈ vertices.rows, env.schema.vertexOf vertices r = x ∧
        ∃ r' ∈ edges.rows, r'.get near = .text id ∧ r'.get far = r.get env.schema.idColumn := by
  have hedges := h.tableWith_edges [near, far] (by simp [hnear, hfar])
  refine ⟨_, by simp only [Source.neighboursIn, h.tableWith_vertices, hedges, ok_bind]; rfl,
    fun x => ?_⟩
  have hends : vertices.affinity env.schema.idColumn = edges.affinity far :=
    h.vertexIds.affinity.trans (h.edgeIds far hfar).affinity.symm
  rw [Table.rowsWithin_eq hends]
  simp only [Table.cells, Table.values, List.mem_map, List.mem_filter, Value.memberOf_iff]
  constructor
  · rintro ⟨r, ⟨hr, _, r', ⟨hr', hmet⟩, heq⟩, rfl⟩
    exact ⟨r, hr, rfl, r', hr', (h.selects_sameAs hr' hnear id).mp hmet, heq⟩
  · rintro ⟨r, hr, rfl, r', hr', hmet, heq⟩
    obtain ⟨u, hu⟩ := h.vertexTexts r hr
    exact ⟨r, ⟨hr, by simp [hu], r', ⟨hr', (h.selects_sameAs hr' hnear id).mpr hmet⟩, heq⟩, rfl⟩

/-! ### Edges -/

theorem columnsOf_key (h : env.IsTextWorld db vertices edges) {p : Predicate} {column : String}
    (hkey : p.key ≠ Predicate.wildcard) (halias : Source.edgeAlias env.schema p.key = column)
    (hcolumn : column ∈ env.schema.reserved) :
    Source.columnsOf (Source.edgeAlias env.schema) edges.names p = [column] := by
  have hin : column ∈ edges.names := by simpa [Table.has] using (h.edgeIds column hcolumn).has
  simp [Source.columnsOf, Predicate.isWildcard, hkey, halias, List.filter_eq,
    List.count_eq_one_of_mem h.names hin]

/-- The edges between two vertices are the rows with these ends. -/
theorem edgesBetween [RegexLibrary] (h : env.IsTextWorld db vertices edges) (child parent : String) :
    (Source.tables env.schema db).edgesBetween child parent =
      .ok (((edges.rows.filter fun r => r.get env.schema.childColumn = .text child).filter
        fun r => r.get env.schema.parentColumn = .text parent).map
          (env.schema.edgeOf edges)) := by
  have hchild := env.schema.childColumn_mem_reserved
  have hparent := env.schema.parentColumn_mem_reserved
  have hkeys : parentKey ≠ childKey := by decide
  have hnamed : childKey ≠ Predicate.wildcard ∧ parentKey ≠ Predicate.wildcard := by decide
  have hcolumns := h.columnsOf_key (p := ⟨childKey, .equal, child⟩) hnamed.1
    (by simp [Source.edgeAlias]) hchild
  have hcolumns' := h.columnsOf_key (p := ⟨parentKey, .equal, parent⟩) hnamed.2
    (by simp [Source.edgeAlias, hkeys]) hparent
  have htexts {column : String} (hcolumn : column ∈ env.schema.reserved) (r : Row)
      (hr : r ∈ edges.rows) : ∃ u, r.get column = .text u := by
    obtain ⟨u, hu, _⟩ := h.exists_text hr column hcolumn
    exact ⟨u, hu⟩
  have hfirst := Predicate.filterRows_equal childKey child edges (isReserved hchild)
    (htexts hchild)
  have hsecond := Predicate.filterRows_equal parentKey parent edges (isReserved hparent)
    fun r hr => htexts hparent r
      (List.mem_of_mem_filter (p := fun r => r.get env.schema.childColumn = .text child) hr)
  simp [Source.edgesBetween, Source.edges, h.tableWith_edges, Source.selectRows, hcolumns,
    hcolumns', Sql.anyDepth, Sql.joinedDepth, Sql.referenceDepth, isReserved hchild,
    isReserved hparent, Sql.depthLimit, hfirst, hsecond]

/-- The tables answer about the elements that their rows stand for. -/
theorem answers [RegexLibrary] (h : env.IsTextWorld db vertices edges) :
    (Source.tables env.schema db).Answers (vertices.rows.map (env.schema.vertexOf vertices))
      (edges.rows.map (env.schema.edgeOf edges)) where
  neighbours way id := by
    have hchild := env.schema.childColumn_mem_reserved
    have hparent := env.schema.parentColumn_mem_reserved
    obtain ⟨found, hfound, hmem⟩ : ∃ found,
        (Source.tables env.schema db).neighbours way id = .ok found ∧
          ∀ x, x ∈ found ↔ ∃ r ∈ vertices.rows, env.schema.vertexOf vertices r = x ∧
            ∃ r' ∈ edges.rows, (env.schema.arcOf r').near way = .text id ∧
              (env.schema.arcOf r').far way = r.get env.schema.idColumn := by
      cases way with
      | ancestor => exact h.neighboursIn hchild hparent id
      | descendant => exact h.neighboursIn hparent hchild id
    refine ⟨found, hfound, fun x => (hmem x).trans ?_⟩
    simp only [List.mem_map]
    constructor
    · rintro ⟨r, hr, rfl, r', hr', hnear, hfar⟩
      obtain ⟨u, hu⟩ := h.vertexTexts r hr
      rw [← h.arc_edgeOf hr', Edge.near_arc] at hnear
      rw [← h.arc_edgeOf hr', Edge.far_arc, hu] at hfar
      exact ⟨⟨r, hr, rfl⟩, _, ⟨r', hr', rfl⟩, by simpa using hnear,
        by simpa [Schema.vertexOf, hu] using hfar⟩
    · rintro ⟨⟨r, hr, rfl⟩, _, ⟨r', hr', rfl⟩, rfl, hfar⟩
      obtain ⟨u, hu⟩ := h.vertexTexts r hr
      refine ⟨r, hr, rfl, r', hr', ?_, ?_⟩
      · rw [← h.arc_edgeOf hr', Edge.near_arc]
      · rw [← h.arc_edgeOf hr', Edge.far_arc, hfar, hu]
        simp [Schema.vertexOf, hu]
  edgesBetween child parent := by
    refine ⟨_, h.edgesBetween child parent, fun e => ?_⟩
    simp only [List.mem_map, List.mem_filter, decide_eq_true_eq]
    constructor
    · rintro ⟨r, ⟨⟨hr, hc⟩, hp⟩, rfl⟩
      exact ⟨⟨r, hr, rfl⟩, by simp [Schema.edgeOf, hc], by simp [Schema.edgeOf, hp]⟩
    · rintro ⟨⟨r, hr, rfl⟩, rfl, rfl⟩
      have harc := h.arc_edgeOf hr
      exact ⟨r, ⟨⟨hr, (congrArg Arc.child harc).symm⟩, (congrArg Arc.parent harc).symm⟩, rfl⟩
  ends e he way := by
    obtain ⟨r, hr, rfl⟩ := List.mem_map.mp he
    have hcell : (env.schema.arcOf r).far way ∈ vertices.values env.schema.idColumn := by
      cases way with
      | ancestor => exact h.ends r hr _ (by simp)
      | descendant => exact h.ends r hr _ (by simp)
    obtain ⟨r', hr', heq⟩ := List.mem_map.mp hcell
    rw [← h.arc_edgeOf hr, Edge.far_arc] at heq
    exact ⟨_, List.mem_map_of_mem hr', by simp [Schema.vertexOf, heq]⟩

end Environment.IsTextWorld
end Provenance
