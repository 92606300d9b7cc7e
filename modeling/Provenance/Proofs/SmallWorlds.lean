-- SUMMARY: Small worlds and stores over which searches are run.
import Provenance.Proofs.Worlds
import Provenance.Session

/-!
# Searches over small worlds

A search is ready to run once a world is loaded, two graphs hold one vertex each, and the target is
made anew. Here this is done from an empty database, for worlds of given edges between texts.
-/
namespace Provenance
namespace SmallWorld

/-- An environment with the graphs `src`, `dst` and `out`. -/
def environment : Environment :=
  let none : Environment := ⟨.standard, Environment.standardStem, .empty, .empty⟩
  ((none.addGraph "src").addGraph "dst").addGraph "out"

def tables (name : String) : TablePair := environment.graphTables name

/-- The graph holds the vertex and nothing else. -/
def fill (name vertex : String) : Program Unit := do
  environment.createEmpty (.named name)
  environment.insertGiven .vertex (.named name) [vertex]

def prepare (w : World) (src dst : String) : Program Unit := do
  w.load environment.schema
  fill "src" src
  fill "dst" dst
  environment.createEmpty (.named "out")

def start : Store := .create .empty Session.standardScratchStem

/-- An edge by its id and its two ends. -/
def arc (edge : String × String × String) : Arc :=
  ⟨.text edge.1, .text edge.2.1, .text edge.2.2⟩

def world (vertices : List String) (edges : List (String × String × String)) : World :=
  ⟨vertices.map fun v => ⟨.text v, []⟩,
    edges.map fun edge => ⟨.text edge.1, .text edge.2.1, .text edge.2.2, []⟩, [], []⟩

variable {vertices : List String} {edges : List (String × String × String)} {w : World} {s : Store}

theorem idAffinity_eq : environment.schema.idAffinity = .text := by decide

theorem resolve_eq {name : String} (h : name ∈ ["src", "dst", "out"]) :
    environment.resolve (.named name) = .ok (tables name) := by
  simp only [List.mem_cons, List.not_mem_nil, or_false] at h
  rcases h with rfl | rfl | rfl <;> rfl

theorem annotationTable_ne {name : String} (h : name ∈ ["src", "dst", "out"]) (e e' : Element) :
    Name.folded (environment.schema.annotationTable e) ≠ Name.folded ((tables name).part e') := by
  simp only [List.mem_cons, List.not_mem_nil, or_false] at h
  cases e <;> cases e' <;> rcases h with rfl | rfl | rfl <;> decide

theorem ownTables : environment.OwnTables := by
  have hcreate : Environment.create .standard (some Environment.standardStem) =
    .ok ⟨.standard, Environment.standardStem, .empty, .empty⟩ := by decide
  exact (Environment.ownTables_of_create hcreate).addGraph.addGraph.addGraph

theorem canLoad (vertices : List String) (edges : List (String × String × String)) :
    (world vertices edges).CanLoad environment.schema := by
  -- no element carries an annotation, so there are only the reserved columns
  have hkeys {α : Type} (elements : List α) :
      World.keysOf [] (elements.map fun _ => []) = [] := by
    simp [World.keysOf, List.eraseDups]
  have hvertices : World.keysOf (world vertices edges).vertexKeys
      ((world vertices edges).vertices.map (·.annotations)) = [] := by
    simpa [world, Function.comp_def] using hkeys vertices
  have hedges : World.keysOf (world vertices edges).edgeKeys
      ((world vertices edges).edges.map (·.annotations)) = [] := by
    simpa [world, Function.comp_def] using hkeys edges
  refine ⟨by decide, by decide, by decide, ?_, ?_⟩
  · rw [hvertices]
    exact ⟨by decide, by decide, by decide, by decide⟩
  · rw [hedges]
    exact ⟨by decide, by decide, by decide, by decide⟩

theorem arcs_world (vertices : List String) (edges : List (String × String × String)) :
    (world vertices edges).edges.map (WorldEdge.arc environment.schema) = edges.map arc := by
  simp only [world, List.map_map]
  apply List.map_congr_left
  intro edge _
  simp [WorldEdge.arc, idAffinity_eq, Affinity.store, Value.asText, arc]

/-! ## Preparation -/

/-- The world is loaded, and nothing stands in the way of what is done next. -/
structure Loaded (w : World) (s : Store) : Prop where
  base : w.IsBase environment s.database
  stem : s.scratchStem = Session.standardScratchStem

theorem Loaded.canScratch (h : Loaded w s) : s.CanScratch := by
  rw [Store.CanScratch, h.stem]
  decide

theorem wp_load : ((world vertices edges).load environment.schema).wp
    (fun _ s' => Loaded (world vertices edges) s') start := by
  refine (World.wp_load (canLoad vertices edges) idAffinity_eq (by decide) ?_).mono fun _ s' h => ?_
  · intro e he
    obtain ⟨_, _, rfl⟩ := List.mem_map.mp he
    simp
  · exact ⟨h.1, h.2⟩

theorem wp_createEmpty {name : String} (hname : name ∈ ["src", "dst", "out"]) (h : Loaded w s) :
    (environment.createEmpty (.named name)).wp
      (fun _ s' => Loaded w s' ∧ environment.Fresh s'.database name (tables name) ∧
        Database.SameBut [(tables name).vertices, (tables name).edges] s.database s'.database)
      s := by
  have hwritable : Name.isWritable name = true := by
    simp only [List.mem_cons, List.not_mem_nil, or_false] at hname
    rcases hname with rfl | rfl | rfl <;> decide
  refine (Environment.wp_createEmpty ownTables (resolve_eq hname) (by decide) hwritable (by decide)
    (annotationTable_ne hname)).mono fun _ s' h' => ?_
  obtain ⟨hfresh, hsame, hstem⟩ := h'
  have hbase := h.base.of_same hsame fun e => TablePair.forall_tables (annotationTable_ne hname e)
  exact ⟨⟨hbase, hstem.trans h.stem⟩, hfresh, hsame⟩

theorem wp_fill {name vertex : String} (hname : name ∈ ["src", "dst", "out"]) (h : Loaded w s)
    (hvertex : ∃ v ∈ w.vertices, v.id = .text vertex)
    (hlength : vertex.length ≤ Environment.longestGivenId) :
    (fill name vertex).wp
      (fun _ s' => Loaded w s' ∧
        environment.Holds s'.database (.named name) .vertex [.text vertex] ∧
        Database.SameBut [(tables name).vertices, (tables name).edges] s.database s'.database)
      s := by
  unfold fill
  refine .bind ((wp_createEmpty hname h).mono fun _ s₁ h₁ => ?_)
  obtain ⟨hloaded₁, hfresh, hsame₁⟩ := h₁
  obtain ⟨_, hr, hpresent⟩ := hloaded₁.base.vertices
  obtain rfl := Except.ok.inj hr
  refine (Environment.wp_insertGiven (e := .vertex) hloaded₁.canScratch hfresh hpresent
    idAffinity_eq).mono fun _ s₂ h₂ => ?_
  obtain ⟨hlists, hsame₂, hstem⟩ := h₂
  have hloaded₂ : Loaded w s₂ := by
    refine ⟨hloaded₁.base.of_same hsame₂ fun e name' hname' => ?_, hstem.trans hloaded₁.stem⟩
    obtain rfl := List.mem_singleton.mp hname'
    exact annotationTable_ne hname e .vertex
  refine ⟨hloaded₂, ⟨tables name, resolve_eq hname, ?_⟩, hsame₁.trans (hsame₂.mono (by simp))⟩
  refine (hlists.congr fun v => ?_).lists_singleton
  obtain ⟨u, hu, hid⟩ := hvertex
  constructor
  · intro hv
    obtain ⟨_, id, hin, _, rfl⟩ := hv
    rw [List.mem_singleton.mp hin]
  · intro hv
    subst hv
    refine ⟨List.mem_map.mpr ⟨u, hu, ?_⟩, vertex, by simp, hlength, rfl⟩
    rw [hid, idAffinity_eq]
    rfl

/-- What a graph holds stays when a later one is filled. -/
theorem holds_of_same {name other vertex : String} {db db' : Database}
    (h : (name, other) = ("src", "dst") ∨ (name, other) = ("src", "out") ∨
      (name, other) = ("dst", "out"))
    (hs : Database.SameBut [(tables other).vertices, (tables other).edges] db db')
    (hh : environment.Holds db (.named name) .vertex [.text vertex]) :
    environment.Holds db' (.named name) .vertex [.text vertex] := by
  apply hh.of_same hs
  intro found hr table htable
  simp only [List.mem_cons, List.not_mem_nil, or_false] at htable
  rcases h with h | h | h
  all_goals
    obtain ⟨rfl, rfl⟩ := Prod.mk.inj h
    obtain rfl := Except.ok.inj hr
    rcases htable with rfl | rfl <;> decide

/-- A search from one vertex to another may begin. -/
structure Ready (edges : List (String × String × String)) (src dst : String) (s : Store) :
    Prop where
  canScratch : s.CanScratch
  fresh : environment.Fresh s.database "out" (tables "out")
  hasEdgeTable : environment.HasEdgeTable s.database
  subject : ∃ es, environment.Holds s.database .base .edge es
  rows : ∃ ids, environment.Holds s.database .base .edge ids ∧ ids.length = edges.length
  hasEdge : environment.HasEdge s.database .base = (· ∈ edges.map arc)
  src : environment.Holds s.database (.named "src") .vertex [.text src]
  dst : environment.Holds s.database (.named "dst") .vertex [.text dst]

theorem wp_prepare {src dst : String} (hsrc : src ∈ vertices) (hdst : dst ∈ vertices)
    (hlength : ∀ v ∈ vertices, v.length ≤ Environment.longestGivenId) :
    (prepare (world vertices edges) src dst).wp (fun _ s' => Ready edges src dst s') start := by
  have hvertex (v : String) (hv : v ∈ vertices) :
      ∃ u ∈ (world vertices edges).vertices, u.id = .text v :=
    ⟨⟨.text v, []⟩, List.mem_map_of_mem hv, rfl⟩
  unfold prepare
  -- each step keeps what the ones before have made
  refine .bind (wp_load.mono fun _ s₁ h₁ => ?_)
  refine .bind ((wp_fill (by simp) h₁ (hvertex src hsrc) (hlength src hsrc)).mono fun _ s₂ h₂ => ?_)
  obtain ⟨hloaded₂, hsrc₂, _⟩ := h₂
  refine .bind ((wp_fill (by simp) hloaded₂ (hvertex dst hdst) (hlength dst hdst)).mono
    fun _ s₃ h₃ => ?_)
  obtain ⟨hloaded₃, hdst₃, hsame₃⟩ := h₃
  refine (wp_createEmpty (by simp) hloaded₃).mono fun _ s₄ h₄ => ?_
  obtain ⟨hloaded₄, hfresh, hsame₄⟩ := h₄
  refine ⟨hloaded₄.canScratch, hfresh, hloaded₄.base.hasEdgeTable, ⟨_, hloaded₄.base.edges⟩,
    ⟨_, hloaded₄.base.edges, by simp [world]⟩, ?_, ?_, ?_⟩
  · funext a
    rw [hloaded₄.base.hasEdge, ← List.mem_map, arcs_world]
  · exact holds_of_same (.inr (.inl rfl)) hsame₄ (holds_of_same (.inl rfl) hsame₃ hsrc₂)
  · exact holds_of_same (.inr (.inr rfl)) hsame₄ hdst₃

/-! ## Three worlds -/

theorem leads_arc {edge : String × String × String} (h : edge ∈ edges) :
    Leads (· ∈ edges.map arc) .ancestor (.text edge.2.1) (.text edge.2.2) :=
  ⟨arc edge, List.mem_map_of_mem h, rfl, rfl, by simp, by simp⟩

/-- A walk of two edges. -/
def chain : List (String × String × String) := [("e1", "a", "b"), ("e2", "b", "c")]

theorem mem_chain {a : Arc} :
    a ∈ chain.map arc ↔ a = arc ("e1", "a", "b") ∨ a = arc ("e2", "b", "c") := by
  simp [chain]

theorem chain_first : Leads (· ∈ chain.map arc) .ancestor (.text "a") (.text "b") :=
  leads_arc List.mem_cons_self

theorem chain_second : Leads (· ∈ chain.map arc) .ancestor (.text "b") (.text "c") :=
  leads_arc (List.mem_cons_of_mem _ List.mem_cons_self)

theorem chain_walk : Walk (Leads (· ∈ chain.map arc) .ancestor) 2 (.text "a") (.text "c") :=
  .cons chain_first (.cons chain_second (.nil _))

/-- An edge with a loop where it begins. -/
def loopThenEdge : List (String × String × String) := [("e1", "a", "a"), ("e2", "a", "b")]

theorem mem_loopThenEdge {a : Arc} :
    a ∈ loopThenEdge.map arc ↔ a = arc ("e1", "a", "a") ∨ a = arc ("e2", "a", "b") := by
  simp [loopThenEdge]

theorem loopThenEdge_loop : Leads (· ∈ loopThenEdge.map arc) .ancestor (.text "a") (.text "a") :=
  leads_arc List.mem_cons_self

theorem loopThenEdge_edge : Leads (· ∈ loopThenEdge.map arc) .ancestor (.text "a") (.text "b") :=
  leads_arc (List.mem_cons_of_mem _ List.mem_cons_self)

/-- An edge with another one back. -/
def thereAndBack : List (String × String × String) := [("e1", "a", "b"), ("e2", "b", "a")]

theorem mem_thereAndBack {a : Arc} :
    a ∈ thereAndBack.map arc ↔ a = arc ("e1", "a", "b") ∨ a = arc ("e2", "b", "a") := by
  simp [thereAndBack]

theorem thereAndBack_there : Leads (· ∈ thereAndBack.map arc) .ancestor (.text "a") (.text "b") :=
  leads_arc List.mem_cons_self

end SmallWorld

/-! ## Stores given by their tables -/

/-- A table that lists texts as ids and has a column for each of some keys. -/
def Schema.listing (schema : Schema) (keys ids : List String) : Table :=
  ⟨schema.idColumns ++ keys.map fun key => ⟨key, .text⟩,
    ids.map fun id => ⟨[(schema.idColumn, .text id)]⟩⟩

@[simp] theorem Schema.names_listing (schema : Schema) (keys ids : List String) :
    (schema.listing keys ids).names = schema.idColumn :: keys := by
  simp [listing, Table.names, idColumns, Function.comp_def]

theorem Schema.lists_listing {schema : Schema} {db : Database} {table : String}
    (keys ids : List String) (htext : schema.idAffinity = .text)
    (h : db.find? table = some (schema.listing keys ids)) :
    schema.Lists db table (ids.map .text) := by
  have hvalues : (schema.listing keys ids).values schema.idColumn = ids.map .text := by
    simp [listing, Table.values, Row.get]
  refine ⟨_, h, ⟨?_, ?_, ?_⟩, hvalues⟩
  · simp [Table.has]
  · simp [listing, Table.affinity, Column.affinityOf, idColumns]
  · intro v hv
    rw [hvalues] at hv
    obtain ⟨id, _, rfl⟩ := List.mem_map.mp hv
    rw [htext]
    rfl

namespace SmallWorld

/-- A table of edges between texts, a row each. -/
def edgeRows (edges : List (String × String × String)) : Table :=
  ⟨[⟨"hash", .text⟩, ⟨"childhash", .text⟩, ⟨"parenthash", .text⟩],
    edges.map fun edge =>
      ⟨[("hash", .text edge.1), ("childhash", .text edge.2.1), ("parenthash", .text edge.2.2)]⟩⟩

/-- A store over two annotation tables in which `src` and `dst` hold some vertices and edges, and `out`
is made anew. -/
def holding (vertices edges : Table) (src dst : List String × List String) : Store :=
  let listing := environment.schema.listing []
  { start with
    database := (((((((Database.empty.put "vertex" vertices).put "edge" edges).put
      (tables "src").vertices (listing src.1)).put (tables "src").edges (listing src.2)).put
      (tables "dst").vertices (listing dst.1)).put (tables "dst").edges (listing dst.2)).put
      (tables "out").vertices (listing [])).put (tables "out").edges (listing []) }

section Holding

variable (vertexTable edgeTable : Table) (src dst : List String × List String)

theorem edgeRows_ids (edges : List (String × String × String)) :
    (edgeRows edges).values environment.schema.idColumn = edges.map fun edge => .text edge.1 := by
  rw [Table.values, edgeRows, List.map_map]
  rfl

theorem edgeRows_isEdgeTable (edges : List (String × String × String)) :
    environment.IsEdgeTable (edgeRows edges) := by
  refine ⟨fun column hcolumn => ?_, by simp [edgeRows_ids]⟩
  simp only [Schema.reserved, List.mem_cons, List.not_mem_nil, or_false] at hcolumn
  rcases hcolumn with rfl | rfl | rfl
  all_goals
    refine ⟨rfl, rfl, fun v hv => ?_⟩
    obtain ⟨_, hr, rfl⟩ := List.mem_map.mp hv
    obtain ⟨_, _, rfl⟩ := List.mem_map.mp hr
    rfl

theorem holding_canScratch : (holding vertexTable edgeTable src dst).CanScratch := by
  rw [Store.CanScratch, show (holding vertexTable edgeTable src dst).scratchStem =
    Session.standardScratchStem from rfl]
  decide

theorem holding_vertexTable :
    (holding vertexTable edgeTable src dst).database.find? environment.schema.vertexTable =
      some vertexTable := rfl

theorem holding_edgeTable :
    (holding vertexTable edgeTable src dst).database.find? environment.schema.edgeTable =
      some edgeTable := rfl

theorem holding_fresh_out :
    environment.Fresh (holding vertexTable edgeTable src dst).database "out" (tables "out") :=
  ownTables.fresh (resolve_eq (by simp)) (fun e => by cases e <;> rfl) (annotationTable_ne (by simp))

theorem holding_fresh_dst :
    environment.Fresh (holding vertexTable edgeTable src ([], [])).database "dst" (tables "dst") :=
  ownTables.fresh (resolve_eq (by simp)) (fun e => by cases e <;> rfl) (annotationTable_ne (by simp))

theorem holding_fresh_src :
    environment.Fresh (holding vertexTable edgeTable ([], []) dst).database "src" (tables "src") :=
  ownTables.fresh (resolve_eq (by simp)) (fun e => by cases e <;> rfl) (annotationTable_ne (by simp))

theorem holding_lists_src_vertices :
    environment.schema.Lists (holding vertexTable edgeTable src dst).database (tables "src").vertices
      (src.1.map .text) :=
  Schema.lists_listing [] _ idAffinity_eq rfl

theorem holding_lists_src_edges :
    environment.schema.Lists (holding vertexTable edgeTable src dst).database (tables "src").edges
      (src.2.map .text) :=
  Schema.lists_listing [] _ idAffinity_eq rfl

theorem holding_src_vertices :
    environment.Holds (holding vertexTable edgeTable src dst).database (.named "src") .vertex
      (src.1.map .text) :=
  ⟨tables "src", resolve_eq (by simp), holding_lists_src_vertices ..⟩

theorem holding_src_edges :
    environment.Holds (holding vertexTable edgeTable src dst).database (.named "src") .edge
      (src.2.map .text) :=
  ⟨tables "src", resolve_eq (by simp), holding_lists_src_edges ..⟩

theorem holding_dst_vertices :
    environment.Holds (holding vertexTable edgeTable src dst).database (.named "dst") .vertex
      (dst.1.map .text) :=
  ⟨tables "dst", resolve_eq (by simp), Schema.lists_listing [] _ idAffinity_eq rfl⟩

theorem holding_base_edges (edges : List (String × String × String)) :
    environment.Holds (holding vertexTable (edgeRows edges) src dst).database .base .edge
      (edges.map fun edge => .text edge.1) :=
  ⟨_, rfl, edgeRows edges, holding_edgeTable .., (edgeRows_isEdgeTable edges).keeps _ (by decide),
    edgeRows_ids edges⟩

theorem holding_hasEdge (edges : List (String × String × String)) :
    environment.HasEdge (holding vertexTable (edgeRows edges) src dst).database .base =
      (· ∈ edges.map arc) := by
  funext a
  apply propext
  rw [Environment.hasEdge_iff (holding_edgeTable ..) (holding_base_edges ..)]
  constructor
  · rintro ⟨_, r, hr, rfl⟩
    obtain ⟨edge, hedge, rfl⟩ := List.mem_map.mp hr
    exact List.mem_map.mpr ⟨edge, hedge, rfl⟩
  · intro ha
    obtain ⟨edge, hedge, rfl⟩ := List.mem_map.mp ha
    exact ⟨List.mem_map_of_mem (f := fun edge : String × String × String => Value.text edge.1) hedge,
      _, List.mem_map_of_mem hedge, rfl⟩

end Holding

end SmallWorld
end Provenance
