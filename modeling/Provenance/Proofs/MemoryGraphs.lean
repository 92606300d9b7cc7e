-- SUMMARY: What the operations on graphs in memory add, and the form that they keep.
import Provenance.Memory.Graph
import Mathlib.Data.List.Nodup

/-!
# Growing graphs in memory

A graph in memory only grows: an operation adds ids of vertices and of edges, and takes none away.
`Adds` says which, so that long runs of operations are described by what each of them adds. On the
way a graph stays well-formed: no id occurs twice, and what edges and network entries refer to is
among the vertices.
-/
namespace Provenance.MemoryGraph

def vertexIds (g : MemoryGraph) : List String := g.vertices.map (·.id)

def edgeIds (g : MemoryGraph) : List String := g.edges.map (·.id)

structure WellFormed (g : MemoryGraph) : Prop where
  vertices : g.vertexIds.Nodup
  edges : g.edgeIds.Nodup
  ends : ∀ e ∈ g.edges, e.child ∈ g.vertexIds ∧ e.parent ∈ g.vertexIds
  network : ∀ entry ∈ g.network.entries, entry.1 ∈ g.vertexIds

variable {g g' g'' other : MemoryGraph} {v : Vertex} {e : Edge} {id : String} {depth : Option Int}

theorem wellFormed_empty (maxDepth : Option Int) : (empty maxDepth).WellFormed := by
  constructor <;> simp [vertexIds, edgeIds, empty, Depths.empty]

theorem hasVertex_iff : g.hasVertex id = true ↔ id ∈ g.vertexIds := by
  simp [hasVertex, findVertex?, vertexIds]

theorem hasEdge_iff : g.hasEdge id = true ↔ id ∈ g.edgeIds := by
  simp [hasEdge, findEdge?, edgeIds]

/-- In a well-formed graph an id is that of one vertex. -/
theorem WellFormed.findVertex?_eq_some (h : g.WellFormed) :
    g.findVertex? id = some v ↔ v ∈ g.vertices ∧ v.id = id := by
  constructor
  · intro hfind
    exact ⟨List.mem_of_find?_eq_some hfind, by simpa using List.find?_some hfind⟩
  · rintro ⟨hv, rfl⟩
    obtain ⟨w, hfind⟩ : ∃ w, g.findVertex? v.id = some w :=
      Option.isSome_iff_exists.mp (hasVertex_iff.mpr (List.mem_map_of_mem hv))
    have hid : w.id = v.id := by simpa using List.find?_some hfind
    obtain rfl := List.inj_on_of_nodup_map h.vertices (List.mem_of_find?_eq_some hfind) hv hid
    exact hfind

/-! ## Single operations -/

theorem vertexIds_insertVertex (g : MemoryGraph) (v : Vertex) :
    (g.insertVertex v).vertexIds =
      if v.id ∈ g.vertexIds then g.vertexIds else g.vertexIds ++ [v.id] := by
  unfold insertVertex
  by_cases hv : v.id ∈ g.vertexIds
  · rw [if_pos (hasVertex_iff.mpr hv), if_pos hv]
    simp only [vertexIds, List.map_map]
    apply List.map_congr_left
    intro w _
    by_cases hw : w.id = v.id <;> simp [hw]
  · rw [if_neg (fun h => hv (hasVertex_iff.mp h)), if_neg hv]
    simp [vertexIds]

theorem mem_vertexIds_insertVertex {u : String} :
    u ∈ (g.insertVertex v).vertexIds ↔ u ∈ g.vertexIds ∨ u = v.id := by
  rw [vertexIds_insertVertex]
  split
  · next hv => exact ⟨.inl, fun h => h.elim id fun he => he ▸ hv⟩
  · simp

@[simp] theorem edges_insertVertex : (g.insertVertex v).edges = g.edges := by
  unfold insertVertex
  split <;> rfl

@[simp] theorem edges_addVertex : (g.addVertex v depth).edges = g.edges := by
  cases depth <;> simp [addVertex]

@[simp] theorem edges_addEndpoint : (g.addEndpoint id).edges = g.edges := by
  unfold addEndpoint
  split <;> simp

@[simp] theorem network_insertVertex : (g.insertVertex v).network = g.network := by
  unfold insertVertex
  split <;> rfl

theorem WellFormed.insertVertex (h : g.WellFormed) : (g.insertVertex v).WellFormed where
  vertices := by
    rw [vertexIds_insertVertex]
    split
    · exact h.vertices
    · next hv => exact List.concat_eq_append ▸ h.vertices.concat hv
  edges := by simpa [edgeIds] using h.edges
  ends e he := by
    rw [edges_insertVertex] at he
    have hends := h.ends e he
    exact ⟨mem_vertexIds_insertVertex.mpr (.inl hends.1),
      mem_vertexIds_insertVertex.mpr (.inl hends.2)⟩
  network entry hentry := by
    rw [network_insertVertex] at hentry
    exact mem_vertexIds_insertVertex.mpr (.inl (h.network entry hentry))

theorem ids_lower {d : Depths} {depth : Int} {entry : String × Int}
    (h : entry ∈ (d.lower id depth).entries) :
    entry.1 = id ∨ ∃ old ∈ d.entries, old.1 = entry.1 := by
  unfold Depths.lower at h
  split at h
  · rcases List.mem_append.mp h with h | h
    · exact .inr ⟨entry, h, rfl⟩
    · exact .inl (by rw [List.mem_singleton.mp h])
  · split at h
    · obtain ⟨old, hold, rfl⟩ := List.mem_map.mp h
      split
      · exact .inl rfl
      · exact .inr ⟨old, hold, rfl⟩
    · exact .inr ⟨entry, h, rfl⟩

/-! ## What operations add -/

/-- From one graph to the other these ids are added, and the graph stays well-formed. -/
structure Adds (g g' : MemoryGraph) (V I : String → Prop) : Prop where
  vertices : ∀ u, u ∈ g'.vertexIds ↔ u ∈ g.vertexIds ∨ V u
  edges : ∀ i, i ∈ g'.edgeIds ↔ i ∈ g.edgeIds ∨ I i
  wellFormed : g.WellFormed → g'.WellFormed

namespace Adds

variable {V V' I I' : String → Prop}

theorem refl (g : MemoryGraph) : g.Adds g (fun _ => False) (fun _ => False) :=
  ⟨by simp, by simp, id⟩

theorem trans (h : g.Adds g' V I) (h' : g'.Adds g'' V' I') :
    g.Adds g'' (fun u => V u ∨ V' u) (fun i => I i ∨ I' i) where
  vertices u := by rw [h'.vertices, h.vertices, or_assoc]
  edges i := by rw [h'.edges, h.edges, or_assoc]
  wellFormed hg := h'.wellFormed (h.wellFormed hg)

theorem congr (h : g.Adds g' V I) (hV : ∀ u, V u ↔ V' u) (hI : ∀ i, I i ↔ I' i) :
    g.Adds g' V' I' :=
  ⟨fun u => by rw [h.vertices, hV], fun i => by rw [h.edges, hI], h.wellFormed⟩

theorem keeps (h : g.Adds g' V I) {u : String} (hu : u ∈ g.vertexIds) : u ∈ g'.vertexIds :=
  (h.vertices u).mpr (.inl hu)

/-- Depths, the root and marks are no part of what is said here. -/
theorem same (h : g.Adds g' V I) (hvertices : g''.vertices = g'.vertices)
    (hedges : g''.edges = g'.edges) (hnetwork : g''.network = g'.network) : g.Adds g'' V I := by
  have hids : g''.vertexIds = g'.vertexIds := by rw [vertexIds, hvertices, vertexIds]
  have hedgeIds : g''.edgeIds = g'.edgeIds := by rw [edgeIds, hedges, edgeIds]
  refine ⟨fun u => hids ▸ h.vertices u, fun i => hedgeIds ▸ h.edges i, fun hg => ?_⟩
  have hg' := h.wellFormed hg
  exact ⟨hids ▸ hg'.vertices, hedgeIds ▸ hg'.edges, by simpa [hids, hedges] using hg'.ends,
    by simpa [hids, hnetwork] using hg'.network⟩

/-- Operations one after the other add what any of them adds. -/
theorem foldl {α : Type} {f : MemoryGraph → α → MemoryGraph} {V I : α → String → Prop}
    {as : List α}
    (h : ∀ a ∈ as, ∀ g' : MemoryGraph, (∀ u ∈ g.vertexIds, u ∈ g'.vertexIds) →
      g'.Adds (f g' a) (V a) (I a)) :
    g.Adds (as.foldl f g) (fun u => ∃ a ∈ as, V a u) (fun i => ∃ a ∈ as, I a i) := by
  induction as generalizing g with
  | nil => exact (refl g).congr (by simp) (by simp)
  | cons a as ih =>
    have hfirst := h a (by simp) g fun _ hu => hu
    have hrest := ih fun b hb g' hg' => h b (by simp [hb]) g' fun u hu => hg' u (hfirst.keeps hu)
    exact (hfirst.trans hrest).congr (by simp) (by simp)

end Adds

theorem adds_addVertex (g : MemoryGraph) (v : Vertex) (depth : Option Int) :
    g.Adds (g.addVertex v depth) (· = v.id) (fun _ => False) := by
  have hinsert : g.Adds (g.insertVertex v) (· = v.id) (fun _ => False) :=
    ⟨fun _ => mem_vertexIds_insertVertex, by simp [edgeIds], .insertVertex⟩
  cases depth with
  | none => exact hinsert
  | some depth => exact hinsert.same rfl rfl rfl

theorem adds_putNetwork (g : MemoryGraph) (v : Vertex) (depth : Int) :
    g.Adds (g.putNetwork v depth) (· = v.id) (fun _ => False) := by
  have hadd := adds_addVertex g v none
  refine ⟨hadd.vertices, hadd.edges, fun hg => ?_⟩
  have h := hadd.wellFormed hg
  refine ⟨h.vertices, h.edges, h.ends, fun entry hentry => ?_⟩
  rcases ids_lower hentry with hid | ⟨old, hold, hid⟩
  · exact (hadd.vertices _).mpr (.inr hid)
  · exact hid ▸ h.network old hold

/-- An edge between known vertices adds nothing but itself. -/
theorem adds_addEdge (hc : e.child ∈ g.vertexIds) (hp : e.parent ∈ g.vertexIds) :
    g.Adds (g.addEdge e) (fun _ => False) (· = e.id) := by
  unfold addEdge
  by_cases he : e.id ∈ g.edgeIds
  · rw [if_pos (hasEdge_iff.mpr he)]
    exact ⟨by simp, fun i => ⟨.inl, fun h => h.elim id fun hi => hi ▸ he⟩, id⟩
  · rw [if_neg (fun h => he (hasEdge_iff.mp h))]
    simp only [addEndpoint, if_pos (hasVertex_iff.mpr hc), if_pos (hasVertex_iff.mpr hp)]
    refine ⟨by simp [vertexIds], by simp [edgeIds], fun h => ⟨h.vertices, ?_, ?_, h.network⟩⟩
    · have hnew : (g.edgeIds ++ [e.id]).Nodup := List.concat_eq_append ▸ h.edges.concat he
      simpa [edgeIds] using hnew
    · intro e' he'
      rcases List.mem_append.mp he' with he' | he'
      · exact h.ends e' he'
      · obtain rfl := List.mem_singleton.mp he'
        exact ⟨hc, hp⟩

theorem adds_addEdges {es : List Edge}
    (hends : ∀ e ∈ es, e.child ∈ g.vertexIds ∧ e.parent ∈ g.vertexIds) :
    g.Adds (es.foldl addEdge g) (fun _ => False) (fun i => ∃ e ∈ es, i = e.id) :=
  (Adds.foldl (V := fun _ _ => False) (I := fun e i => i = e.id) fun e he _ hg' =>
    adds_addEdge (hg' _ (hends e he).1) (hg' _ (hends e he).2)).congr (by simp) (by simp)

/-- The union with a well-formed graph has the ids of both. -/
theorem adds_merge (g : MemoryGraph) (hother : other.WellFormed) :
    g.Adds (g.merge other) (· ∈ other.vertexIds) (· ∈ other.edgeIds) := by
  let withVertices := other.vertices.foldl (fun g v => g.addVertex v (other.depth? v.id)) g
  have hvertices : g.Adds withVertices (fun u => ∃ v ∈ other.vertices, u = v.id) _ :=
    .foldl fun v _ g' _ => adds_addVertex g' v (other.depth? v.id)
  have hknown {u : String} (hu : u ∈ other.vertexIds) : u ∈ withVertices.vertexIds := by
    obtain ⟨v, hv, rfl⟩ := List.mem_map.mp hu
    exact (hvertices.vertices _).mpr (.inr ⟨v, hv, rfl⟩)
  have hedges := hvertices.trans (adds_addEdges fun e he =>
    ⟨hknown (hother.ends e he).1, hknown (hother.ends e he).2⟩)
  let vertexOf (entry : String × Int) : Vertex :=
    (other.findVertex? entry.1).getD ⟨entry.1, .empty⟩
  let withEdges := other.edges.foldl addEdge withVertices
  have hnetwork : withEdges.Adds
      (other.network.entries.foldl (fun g entry => g.putNetwork (vertexOf entry) entry.2) withEdges)
      (fun u => ∃ entry ∈ other.network.entries, u = (vertexOf entry).id) _ :=
    .foldl fun entry _ g' _ => adds_putNetwork g' (vertexOf entry) entry.2
  -- what stands for a network entry has its id, which is that of some vertex
  have hentry (entry : String × Int) : (vertexOf entry).id = entry.1 := by
    cases hfind : other.findVertex? entry.1 with
    | none => simp [vertexOf, hfind]
    | some v => simpa [vertexOf, hfind] using List.find?_some hfind
  have hsum : g.Adds _ (· ∈ other.vertexIds) (· ∈ other.edgeIds) :=
    (hedges.trans hnetwork).congr ?_ ?_
  · exact hsum.same rfl rfl rfl
  · intro u
    simp only [hentry, or_false, vertexIds, List.mem_map]
    constructor
    · rintro (⟨v, hv, rfl⟩ | ⟨entry, hin, rfl⟩)
      · exact ⟨v, hv, rfl⟩
      · simpa [vertexIds] using hother.network entry hin
    · rintro ⟨v, hv, rfl⟩
      exact .inl ⟨v, hv, rfl⟩
  · intro i
    simp [edgeIds, eq_comm]

/-- A graph built from elements has just these, if edges are between the vertices. -/
theorem adds_ofElements {vs : List Vertex} {es : List Edge}
    (hends : ∀ e ∈ es, (∃ v ∈ vs, v.id = e.child) ∧ ∃ v ∈ vs, v.id = e.parent) :
    (empty none).Adds (ofElements vs es) (fun u => ∃ v ∈ vs, u = v.id)
      (fun i => ∃ e ∈ es, i = e.id) := by
  have hvertices : (empty none).Adds (vs.foldl (fun g v => g.addVertex v none) (empty none))
      (fun u => ∃ v ∈ vs, u = v.id) _ :=
    .foldl fun v _ g' _ => adds_addVertex g' v none
  have hknown {u : String} (hu : ∃ v ∈ vs, v.id = u) :
      u ∈ (vs.foldl (fun g v => g.addVertex v none) (empty none)).vertexIds := by
    obtain ⟨v, hv, rfl⟩ := hu
    exact (hvertices.vertices _).mpr (.inr ⟨v, hv, rfl⟩)
  exact (hvertices.trans (adds_addEdges fun e he =>
    ⟨hknown (hends e he).1, hknown (hends e he).2⟩)).congr (by simp) (by simp)

theorem edges_foldl_addEdge {es : List Edge} (hids : (es.map (·.id)).Nodup)
    (hnew : ∀ e ∈ es, e.id ∉ g.edgeIds) : (es.foldl addEdge g).edges = g.edges ++ es := by
  induction es generalizing g with
  | nil => simp
  | cons e es ih =>
    obtain ⟨he, hids⟩ := List.nodup_cons.mp hids
    have hadded : (g.addEdge e).edges = g.edges ++ [e] := by
      have hunknown : ¬ g.hasEdge e.id = true := fun h => hnew e (by simp) (hasEdge_iff.mp h)
      simp [addEdge, hunknown]
    rw [List.foldl_cons, ih hids, hadded, List.append_assoc, List.singleton_append]
    intro e' he'
    simp only [edgeIds, hadded, List.map_append, List.mem_append, List.map_cons, List.map_nil,
      List.mem_singleton, not_or]
    exact ⟨hnew e' (by simp [he']), fun heq => he (List.mem_map.mpr ⟨e', he', heq⟩)⟩

/-- Where no two edges have one id, each is in the graph as it was given. -/
theorem edges_ofElements {vs : List Vertex} {es : List Edge} (hids : (es.map (·.id)).Nodup) :
    (ofElements vs es).edges = es := by
  have hnone : (vs.foldl (fun g v => g.addVertex v none) (empty none)).edges = [] := by
    generalize hg : empty none = g
    have hempty : g.edges = [] := hg ▸ rfl
    clear hg
    induction vs generalizing g with
    | nil => exact hempty
    | cons v vs ih => exact ih _ (by simpa using hempty)
  rw [ofElements, edges_foldl_addEdge hids (by simp [edgeIds, hnone]), hnone, List.nil_append]

end Provenance.MemoryGraph
