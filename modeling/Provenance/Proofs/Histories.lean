-- SUMMARY: What a graph in memory answers, read off the history of how it was built.
import Provenance.Proofs.ContentIds
import Provenance.Proofs.RecordedDepths
import Mathlib.Data.Option.Basic

/-!
# Histories of graphs in memory

A graph in memory is built by adding vertices and edges, by putting vertices among those to be resolved
elsewhere, and by merging graphs that were built in the same way. A history says how, and from it alone
can be told what the graph answers: which vertices it has and with which annotations, which of the edges
it stores, and the depths. Each operation is described by what it changes, as in `Adds` and `Records`,
and a merge by what its many operations change together.
-/
namespace Provenance

/-- The annotation of a vertex, if it has the id. -/
def Vertex.getFor? (v : Vertex) (id key : String) : Option String :=
  if v.id = id then v.get? key else none

/-- The annotation of an id in the union of the annotations that vertices have for it, in which the
later ones take precedence. -/
def annotationOf? (vs : List Vertex) (id key : String) : Option String :=
  vs.reverse.findSome? fun v => v.getFor? id key

/-- The least of the depths given for an id. -/
def leastDepth? (given : List (String × Int)) (id : String) : Option Int :=
  ((given.filter (·.1 = id)).map (·.2)).min?

/-! ## Histories -/

/-- How a graph is built. A vertex has one text for each key. -/
inductive History where
  | start (maxDepth : Option Int)
  | addVertex (h : History) (v : Vertex) (distinct : v.annotations.Distinct) (depth : Option Int)
  | addEdge (h : History) (e : Edge)
  | putNetwork (h : History) (v : Vertex) (distinct : v.annotations.Distinct) (depth : Int)
  | merge (h other : History)

namespace History

/-- The graph that is built. -/
def graph : History → MemoryGraph
  | start maxDepth => .empty maxDepth
  | addVertex h v _ depth => h.graph.addVertex v depth
  | addEdge h e => h.graph.addEdge e
  | putNetwork h v _ depth => h.graph.putNetwork v depth
  | merge h other => h.graph.merge other.graph

/-- All edges that are added, the stored ones and those that come too late. -/
def edges : History → List Edge
  | start _ => []
  | addVertex h _ _ _ => h.edges
  | addEdge h e => h.edges ++ [e]
  | putNetwork h _ _ _ => h.edges
  | merge h other => h.edges ++ other.edges

/-- The edge that is stored under an id: the first one that is added. -/
def edge? (h : History) (id : String) : Option Edge := h.edges.find? (·.id = id)

/-- All vertices that are added. An edge that is stored adds its ends, without annotations. -/
def vertices : History → List Vertex
  | start _ => []
  | addVertex h v _ _ => h.vertices ++ [v]
  | addEdge h e =>
    h.vertices ++ if (h.edge? e.id).isSome then [] else [⟨e.child, .empty⟩, ⟨e.parent, .empty⟩]
  | putNetwork h v _ _ => h.vertices ++ [v]
  | merge h other => h.vertices ++ other.vertices

/-- The depths that are given for vertices. -/
def depths : History → List (String × Int)
  | start _ => []
  | addVertex h v _ depth => h.depths ++ depth.toList.map (v.id, ·)
  | addEdge h _ => h.depths
  | putNetwork h _ _ _ => h.depths
  | merge h other => h.depths ++ other.depths

/-- The depths at which vertices are put among those to be resolved elsewhere. -/
def network : History → List (String × Int)
  | start _ => []
  | addVertex h _ _ _ => h.network
  | addEdge h _ => h.network
  | putNetwork h v _ depth => h.network ++ [(v.id, depth)]
  | merge h other => h.network ++ other.network

end History

/-! ## What a graph shows -/

/-- What can be asked of a graph. -/
structure GraphView where
  vertices : List Vertex
  edges : List Edge
  vertexCount : Nat
  edgeCount : Nat
  depth? : String → Option Int
  network : List (String × Int)
  parents : String → Option (List Vertex)
  children : String → Option (List Vertex)
  edgesBetween : String → String → List Edge

namespace GraphView

variable (view : GraphView)

def ids : List String := view.vertices.map (·.id)

/-- The answer is the vertices at the far ends of the edges of a vertex, each of them once. -/
def AnswersNeighbours (way : Way) (id : String) (answer : Option (List Vertex)) : Prop :=
  ∃ vs, answer = some vs ∧ (vs.map (·.id)).Nodup ∧
    ∀ v, v ∈ vs ↔ v ∈ view.vertices ∧ ∃ e ∈ view.edges, e.near way = id ∧ e.far way = v.id

end GraphView

/-- The graph is the one that is built in this way, as far as it shows. -/
structure History.Describes (h : History) (view : GraphView) : Prop where
  verticesOnce : view.ids.Nodup
  vertices : ∀ id, id ∈ view.ids ↔ ∃ v ∈ h.vertices, v.id = id
  edgesOnce : (view.edges.map (·.id)).Nodup
  edges : ∀ e, e ∈ view.edges ↔ h.edge? e.id = some e
  ends : ∀ e ∈ view.edges, e.child ∈ view.ids ∧ e.parent ∈ view.ids
  vertexCount : view.vertexCount = view.vertices.length
  edgeCount : view.edgeCount = view.edges.length
  annotations : ∀ v ∈ view.vertices, ∀ key, v.get? key = annotationOf? h.vertices v.id key
  depths : ∀ id, view.depth? id = leastDepth? h.depths id
  networkOnce : (view.network.map (·.1)).Nodup
  network : ∀ id depth, (id, depth) ∈ view.network ↔ leastDepth? h.network id = some depth
  networkKnown : ∀ entry ∈ view.network, entry.1 ∈ view.ids
  parents : ∀ id ∈ view.ids, view.AnswersNeighbours .ancestor id (view.parents id)
  children : ∀ id ∈ view.ids, view.AnswersNeighbours .descendant id (view.children id)
  edgesBetweenOnce : ∀ child parent, (view.edgesBetween child parent).Nodup
  edgesBetween : ∀ child parent e, e ∈ view.edgesBetween child parent ↔
    e ∈ view.edges ∧ e.child = child ∧ e.parent = parent

/-! ## Unions of annotations -/

namespace Vertex

variable {v : Vertex} {id key text : String}

theorem getFor?_eq_some : v.getFor? id key = some text ↔ v.id = id ∧ v.get? key = some text := by
  simp [getFor?]

theorem getFor?_empty (id : String) : getFor? ⟨id, .empty⟩ = fun _ _ => none := by
  funext u key
  simp [getFor?, get?, Annotations.get?, Annotations.empty]

end Vertex

theorem annotationOf?_append (vs vs' : List Vertex) (id key : String) :
    annotationOf? (vs ++ vs') id key = (annotationOf? vs' id key).or (annotationOf? vs id key) := by
  rw [annotationOf?, List.reverse_append, List.findSome?_append]
  rfl

namespace Annotations

variable {a b : Annotations}

theorem get?_foldl_insert {entries : List (String × String)} (h : (entries.map (·.1)).Nodup)
    (key : String) : (entries.foldl (fun a entry => a.insert entry.1 entry.2) a).get? key =
      (entries.lookup key).or (a.get? key) := by
  induction entries generalizing a with
  | nil => rfl
  | cons entry entries ih =>
    obtain ⟨hnew, hrest⟩ := List.nodup_cons.mp h
    rw [List.foldl_cons, ih hrest, get?_insert]
    by_cases hkey : key = entry.1
    · have hnone : entries.lookup key = none := by
        rw [List.lookup_eq_none_iff]
        intro other hother
        have hne : key ≠ other.1 := fun heq =>
          hnew (List.mem_map.mpr ⟨other, hother, heq.symm.trans hkey⟩)
        simpa using hne
      rw [hnone, if_pos hkey, List.lookup_cons, hkey]
      simp
    · rw [if_neg hkey, List.lookup_cons, beq_false_of_ne hkey]

theorem get?_merge (hb : b.Distinct) (key : String) :
    (a.merge b).get? key = (b.get? key).or (a.get? key) :=
  get?_foldl_insert hb key

theorem distinct_empty : empty.Distinct := List.nodup_nil

theorem distinct_merge (ha : a.Distinct) (b : Annotations) : (a.merge b).Distinct :=
  distinct_foldl_insert ha b.entries

end Annotations

namespace MemoryGraph

variable {g g' g'' other : MemoryGraph} {v : Vertex} {e : Edge} {id u key : String}

/-- The annotation of the vertex with an id. -/
def annotation? (g : MemoryGraph) (id key : String) : Option String :=
  (g.findVertex? id).bind (·.get? key)

/-- From one graph to the other these annotations are laid over those that there are. -/
def Overlays (g g' : MemoryGraph) (A : String → String → Option String) : Prop :=
  ∀ u key, g'.annotation? u key = (A u key).or (g.annotation? u key)

namespace Overlays

variable {A A' : String → String → Option String}

theorem refl (g : MemoryGraph) : g.Overlays g fun _ _ => none := fun _ _ => rfl

theorem trans (h : g.Overlays g' A) (h' : g'.Overlays g'' A') :
    g.Overlays g'' fun u key => (A' u key).or (A u key) := fun u key => by
  rw [h', h, Option.or_assoc]

theorem congr (h : g.Overlays g' A) (hA : ∀ u key, A u key = A' u key) : g.Overlays g' A' :=
  fun u key => by rw [h, hA]

theorem same (h : g.Overlays g' A) (hvertices : g''.vertices = g'.vertices) : g.Overlays g'' A :=
  fun u key => by rw [annotation?, findVertex?, hvertices, ← h]; rfl

/-- Of several operations the last one that lays over an annotation counts. -/
theorem foldl {α : Type} {f : MemoryGraph → α → MemoryGraph} {A : α → String → String → Option String}
    (as : List α) (h : ∀ a ∈ as, ∀ g : MemoryGraph, g.Overlays (f g a) (A a)) (g : MemoryGraph) :
    g.Overlays (as.foldl f g) fun u key => as.reverse.findSome? fun a => A a u key := by
  induction as generalizing g with
  | nil => exact refl g
  | cons a as ih =>
    have hrest := ih (fun b hb => h b (.tail _ hb)) (f g a)
    refine ((h a List.mem_cons_self g).trans hrest).congr fun u key => ?_
    simp [List.findSome?_append]

end Overlays

theorem findVertex?_insertVertex :
    (g.insertVertex v).findVertex? u = if u = v.id then
      some (((g.findVertex? u).map fun w => ⟨w.id, w.annotations.merge v.annotations⟩).getD v)
    else g.findVertex? u := by
  unfold insertVertex
  split
  · next hknown =>
    have hplace (w : Vertex) : (if w.id = v.id then
        (⟨w.id, w.annotations.merge v.annotations⟩ : Vertex) else w).id = w.id := by
      split <;> rfl
    simp only [findVertex?, List.find?_map, Function.comp_def, hplace]
    cases hfind : g.vertices.find? (·.id = u) with
    | none =>
      have hu : u ≠ v.id := by
        rintro rfl
        simp [hasVertex, findVertex?, hfind] at hknown
      simp [hu]
    | some w =>
      have hw : w.id = u := by simpa using List.find?_some hfind
      by_cases hu : u = v.id <;> simp [hw, hu]
  · next hnew =>
    have hnone : g.vertices.find? (·.id = v.id) = none :=
      Option.not_isSome_iff_eq_none.mp hnew
    by_cases hu : u = v.id
    · subst hu
      simp [findVertex?, List.find?_append, hnone]
    · simp [findVertex?, List.find?_append, hu, Ne.symm hu]

theorem overlays_addVertex (hv : v.annotations.Distinct) (depth : Option Int) :
    g.Overlays (g.addVertex v depth) v.getFor? := by
  have hinsert : g.Overlays (g.insertVertex v) v.getFor? := by
    intro u key
    rw [annotation?, findVertex?_insertVertex, Vertex.getFor?]
    by_cases hu : u = v.id
    · rw [if_pos hu, if_pos hu.symm, annotation?]
      cases g.findVertex? u with
      | none => simp
      | some w => simp [Vertex.get?, Annotations.get?_merge hv]
    · rw [if_neg hu, if_neg (Ne.symm hu), Option.none_or, annotation?]
  cases depth with
  | none => exact hinsert
  | some depth => exact hinsert.same rfl

theorem overlays_putNetwork (hv : v.annotations.Distinct) (depth : Int) :
    g.Overlays (g.putNetwork v depth) v.getFor? :=
  (overlays_addVertex hv none).same rfl

theorem overlays_addEndpoint (id : String) : g.Overlays (g.addEndpoint id) fun _ _ => none := by
  unfold addEndpoint
  split
  · exact .refl g
  · exact Vertex.getFor?_empty id ▸ overlays_addVertex Annotations.distinct_empty none

/-- Edges bring no annotations of vertices with them. -/
theorem overlays_addEdge (e : Edge) : g.Overlays (g.addEdge e) fun _ _ => none := by
  unfold addEdge
  split
  · exact .refl g
  · exact ((overlays_addEndpoint e.child).trans (overlays_addEndpoint e.parent)).same rfl

theorem overlays_addEdges (es : List Edge) : g.Overlays (es.foldl addEdge g) fun _ _ => none :=
  (Overlays.foldl es (fun e _ _ => overlays_addEdge e) g).congr fun _ _ => by simp

theorem WellFormed.annotation?_eq_some (h : g.WellFormed) {text : String} :
    g.annotation? u key = some text ↔ ∃ v ∈ g.vertices, v.getFor? u key = some text := by
  simp only [annotation?, Option.bind_eq_some_iff, h.findVertex?_eq_some, Vertex.getFor?_eq_some,
    and_assoc]

/-- The vertices of a graph lay over what it has for them. -/
theorem WellFormed.annotationOf?_vertices (h : g.WellFormed) (u key : String) :
    annotationOf? g.vertices u key = g.annotation? u key := by
  apply Option.ext
  intro text
  rw [h.annotation?_eq_some]
  constructor
  · intro hsome
    obtain ⟨v, hv, hlaid⟩ := List.exists_of_findSome?_eq_some hsome
    exact ⟨v, List.mem_reverse.mp hv, hlaid⟩
  · rintro ⟨v, hv, hlaid⟩
    have hfound : (annotationOf? g.vertices u key).isSome :=
      List.findSome?_isSome_iff.mpr ⟨v, List.mem_reverse.mpr hv, by simp [hlaid]⟩
    obtain ⟨text', htext'⟩ := Option.isSome_iff_exists.mp hfound
    obtain ⟨w, hw, hlaid'⟩ := List.exists_of_findSome?_eq_some htext'
    -- no other vertex has the id
    have hid : w.id = v.id :=
      (Vertex.getFor?_eq_some.mp hlaid').1.trans (Vertex.getFor?_eq_some.mp hlaid).1.symm
    obtain rfl := List.inj_on_of_nodup_map h.vertices (List.mem_reverse.mp hw) hv hid
    rw [htext', ← hlaid', hlaid]

/-- A merge lays over what the other graph has for its vertices. -/
theorem overlays_merge (hother : other.WellFormed)
    (hdistinct : ∀ v ∈ other.vertices, v.annotations.Distinct) :
    g.Overlays (g.merge other) other.annotation? := by
  let vertexOf (entry : String × Int) : Vertex :=
    (other.findVertex? entry.1).getD ⟨entry.1, .empty⟩
  have hvertexOf (entry : String × Int) : vertexOf entry = ⟨entry.1, .empty⟩ ∨
      vertexOf entry ∈ other.vertices := by
    cases hfind : other.findVertex? entry.1 with
    | none => exact .inl (by simp [vertexOf, hfind])
    | some v => exact .inr (by simpa [vertexOf, hfind] using List.mem_of_find?_eq_some hfind)
  have hvertices : g.Overlays (other.vertices.foldl
      (fun g v => g.addVertex v (other.depth? v.id)) g) other.annotation? :=
    (Overlays.foldl _ (fun v hv _ => overlays_addVertex (hdistinct v hv) _) g).congr
      hother.annotationOf?_vertices
  have hput (entry : String × Int) (g : MemoryGraph) :
      g.Overlays (g.putNetwork (vertexOf entry) entry.2) (vertexOf entry).getFor? := by
    refine overlays_putNetwork ?_ _
    rcases hvertexOf entry with hempty | hin
    · exact hempty ▸ Annotations.distinct_empty
    · exact hdistinct _ hin
  have hnetwork (g : MemoryGraph) :=
    Overlays.foldl other.network.entries (fun entry _ => hput entry) g
  refine (((hvertices.trans (overlays_addEdges other.edges)).trans (hnetwork _)).congr
    fun u key => ?_).same rfl
  rw [Option.none_or]
  -- what is put among the network vertices is a vertex already, with the same annotations
  cases hlaid : other.network.entries.reverse.findSome? fun entry => (vertexOf entry).getFor? u key with
  | none => rfl
  | some text =>
    obtain ⟨entry, _, hentry⟩ := List.exists_of_findSome?_eq_some hlaid
    rcases hvertexOf entry with hempty | hin
    · simp [hempty, Vertex.getFor?_empty] at hentry
    · rw [hother.annotation?_eq_some.mpr ⟨_, hin, hentry⟩, Option.some_or]

/-! ## Stored edges -/

theorem findEdge?_addEdge (e : Edge) (i : String) :
    (g.addEdge e).findEdge? i = (g.findEdge? i).or (if e.id = i then some e else none) := by
  unfold addEdge
  split
  · next hknown =>
    by_cases hi : e.id = i
    · obtain ⟨e', he'⟩ := Option.isSome_iff_exists.mp hknown
      rw [← hi, he', Option.some_or]
    · rw [if_neg hi, Option.or_none]
  · simp [findEdge?, List.find?_append]

theorem findEdge?_addEdges (es : List Edge) (i : String) :
    (es.foldl addEdge g).findEdge? i = (g.findEdge? i).or (es.find? (·.id = i)) := by
  induction es generalizing g with
  | nil => simp
  | cons e es ih =>
    rw [List.foldl_cons, ih, findEdge?_addEdge, Option.or_assoc, List.find?_cons]
    by_cases hi : e.id = i <;> simp [hi]

theorem edges_foldl {α : Type} {f : MemoryGraph → α → MemoryGraph}
    (h : ∀ g a, (f g a).edges = g.edges) (as : List α) (g : MemoryGraph) :
    (as.foldl f g).edges = g.edges := by
  induction as generalizing g with
  | nil => rfl
  | cons a as ih => rw [List.foldl_cons, ih, h]

theorem edges_putNetwork {depth : Int} : (g.putNetwork v depth).edges = g.edges :=
  edges_addVertex

theorem findEdge?_merge (i : String) :
    (g.merge other).findEdge? i = (g.findEdge? i).or (other.findEdge? i) := by
  let withVertices := other.vertices.foldl (fun g v => g.addVertex v (other.depth? v.id)) g
  have hvertices : withVertices.edges = g.edges :=
    edges_foldl (fun _ _ => edges_addVertex) other.vertices g
  have hmerge : (g.merge other).edges = (other.edges.foldl addEdge withVertices).edges := by
    unfold merge
    exact edges_foldl (fun _ _ => edges_putNetwork) other.network.entries _
  have hadded := findEdge?_addEdges (g := withVertices) other.edges i
  rw [findEdge?, hmerge, ← findEdge?, hadded, findEdge?, hvertices]
  rfl

/-! ## Vertices and edges by id -/

/-- In a well-formed graph an id is that of one edge. -/
theorem WellFormed.findEdge?_eq_some (h : g.WellFormed) :
    g.findEdge? id = some e ↔ e ∈ g.edges ∧ e.id = id := by
  constructor
  · intro hfind
    exact ⟨List.mem_of_find?_eq_some hfind, by simpa using List.find?_some hfind⟩
  · rintro ⟨he, rfl⟩
    obtain ⟨e', hfind⟩ : ∃ e', g.findEdge? e.id = some e' :=
      Option.isSome_iff_exists.mp (hasEdge_iff.mpr (List.mem_map_of_mem he))
    have hid : e'.id = e.id := by simpa using List.find?_some hfind
    obtain rfl := List.inj_on_of_nodup_map h.edges (List.mem_of_find?_eq_some hfind) he hid
    exact hfind

theorem addEndpoint_of_known (h : g.hasVertex id = true) : g.addEndpoint id = g := if_pos h

theorem adds_addEndpoint (g : MemoryGraph) (id : String) :
    g.Adds (g.addEndpoint id) (· = id) (fun _ => False) := by
  unfold addEndpoint
  split
  · next hknown =>
    have hknown := hasVertex_iff.mp hknown
    refine ⟨fun u => ⟨.inl, ?_⟩, by simp, fun hg => hg⟩
    rintro (hu | rfl)
    · exact hu
    · exact hknown
  · exact adds_addVertex g ⟨id, .empty⟩ none

/-- An edge that is stored brings its ends with it. -/
theorem adds_addEdge_ends (g : MemoryGraph) (e : Edge) :
    g.Adds (g.addEdge e) (fun u => e.id ∉ g.edgeIds ∧ (u = e.child ∨ u = e.parent)) (· = e.id) := by
  by_cases hknown : e.id ∈ g.edgeIds
  · rw [addEdge, if_pos (hasEdge_iff.mpr hknown)]
    exact ⟨fun u => by simp [hknown], fun i => ⟨.inl, fun h => h.elim (fun hi => hi)
      fun hi => hi ▸ hknown⟩, fun hg => hg⟩
  · let withEnds := (g.addEndpoint e.child).addEndpoint e.parent
    have hends : g.Adds withEnds _ _ :=
      (adds_addEndpoint g e.child).trans (adds_addEndpoint _ e.parent)
    have hedges : withEnds.edges = g.edges := by simp [withEnds]
    -- with its ends there the edge is all that is still missing
    have hsame : g.addEdge e = withEnds.addEdge e := by
      have hchild : withEnds.hasVertex e.child = true :=
        hasVertex_iff.mpr ((hends.vertices _).mpr (.inr (.inl rfl)))
      have hparent : withEnds.hasVertex e.parent = true :=
        hasVertex_iff.mpr ((hends.vertices _).mpr (.inr (.inr rfl)))
      have hnew : ¬ g.hasEdge e.id = true := fun h => hknown (hasEdge_iff.mp h)
      have hnew' : ¬ withEnds.hasEdge e.id = true := by
        rw [hasEdge, findEdge?, hedges]
        exact hnew
      rw [addEdge, addEdge, if_neg hnew, if_neg hnew', addEndpoint_of_known hchild,
        addEndpoint_of_known hparent]
    have hadds := hends.trans (adds_addEdge ((hends.vertices _).mpr (.inr (.inl rfl)))
      ((hends.vertices _).mpr (.inr (.inr rfl))))
    rw [hsame]
    exact hadds.congr (fun u => by simp [hknown]) (fun i => by simp)

/-! ## One text for each key -/

/-- The annotations of vertices have one text for each key. -/
def Mapped (g : MemoryGraph) : Prop := ∀ v ∈ g.vertices, v.annotations.Distinct

namespace Mapped

theorem insertVertex (h : g.Mapped) (hv : v.annotations.Distinct) : (g.insertVertex v).Mapped := by
  intro w hw
  unfold MemoryGraph.insertVertex at hw
  split at hw
  · obtain ⟨w, hin, rfl⟩ := List.mem_map.mp hw
    split
    · exact Annotations.distinct_merge (h w hin) v.annotations
    · exact h w hin
  · rcases List.mem_append.mp hw with hin | hin
    · exact h w hin
    · exact List.mem_singleton.mp hin ▸ hv

theorem addVertex (h : g.Mapped) (hv : v.annotations.Distinct) (depth : Option Int) :
    (g.addVertex v depth).Mapped := by
  cases depth <;> exact h.insertVertex hv

theorem addEndpoint (h : g.Mapped) (id : String) : (g.addEndpoint id).Mapped := by
  unfold MemoryGraph.addEndpoint
  split
  · exact h
  · exact h.addVertex Annotations.distinct_empty none

theorem addEdge (h : g.Mapped) (e : Edge) : (g.addEdge e).Mapped := by
  unfold MemoryGraph.addEdge
  split
  · exact h
  · exact (h.addEndpoint e.child).addEndpoint e.parent

theorem foldl {α : Type} {f : MemoryGraph → α → MemoryGraph} {as : List α}
    (hf : ∀ a ∈ as, ∀ g : MemoryGraph, g.Mapped → (f g a).Mapped) (h : g.Mapped) :
    (as.foldl f g).Mapped :=
  List.foldlRecOn as f h fun g hg a ha => hf a ha g hg

theorem vertexOf (h : other.Mapped) (id : String) :
    ((other.findVertex? id).getD ⟨id, .empty⟩).annotations.Distinct := by
  cases hfind : other.findVertex? id with
  | none => exact Annotations.distinct_empty
  | some v => exact h v (List.mem_of_find?_eq_some hfind)

theorem merge (h : g.Mapped) (hother : other.Mapped) : (g.merge other).Mapped := by
  have hvertices : (other.vertices.foldl (fun g v => g.addVertex v (other.depth? v.id)) g).Mapped :=
    h.foldl fun v hv g hg => hg.addVertex (hother v hv) _
  have hedges := hvertices.foldl fun e (_ : e ∈ other.edges) g hg => hg.addEdge e
  exact hedges.foldl fun entry _ g hg => hg.addVertex (hother.vertexOf entry.1) none

end Mapped

end MemoryGraph

/-! ## Graphs and their histories -/

theorem leastDepth?_eq {d : Depths} {given : List (String × Int)} {id : String}
    (h : ∀ n, d.AtMost id n ↔ ∃ entry ∈ given, entry.1 = id ∧ entry.2 ≤ n) :
    d.get? id = leastDepth? given id := by
  have hmem (m : Int) : m ∈ (given.filter (·.1 = id)).map (·.2) ↔
      ∃ entry ∈ given, entry.1 = id ∧ entry.2 = m := by
    simp [and_assoc]
  apply Option.ext
  intro m
  rw [Depths.get?_eq_some_iff, h, h, leastDepth?, List.min?_eq_some_iff]
  simp only [hmem]
  constructor
  · rintro ⟨⟨entry, hin, hid, hle⟩, hless⟩
    have hleast : ∀ b, (∃ entry ∈ given, entry.1 = id ∧ entry.2 = b) → m ≤ b := by
      rintro b ⟨other, hother, hid', rfl⟩
      by_contra hlt
      exact hless ⟨other, hother, hid', by omega⟩
    exact ⟨⟨entry, hin, hid, le_antisymm hle (hleast _ ⟨entry, hin, hid, rfl⟩)⟩, hleast⟩
  · rintro ⟨⟨entry, hin, hid, rfl⟩, hleast⟩
    refine ⟨⟨entry, hin, hid, le_rfl⟩, ?_⟩
    rintro ⟨other, hother, hid', hle⟩
    have hbound := hleast _ ⟨other, hother, hid', rfl⟩
    omega

namespace History

/-- The graph has what was added. -/
structure Builds (h : History) (g : MemoryGraph) : Prop where
  wellFormed : g.WellFormed
  mapped : g.Mapped
  vertices : ∀ id, id ∈ g.vertexIds ↔ ∃ v ∈ h.vertices, v.id = id
  edges : ∀ id, g.findEdge? id = h.edge? id
  annotations : ∀ id key, g.annotation? id key = annotationOf? h.vertices id key
  depths : ∀ id n, g.depths.AtMost id n ↔ ∃ entry ∈ h.depths, entry.1 = id ∧ entry.2 ≤ n
  network : ∀ id n, g.network.AtMost id n ↔ ∃ entry ∈ h.network, entry.1 = id ∧ entry.2 ≤ n
  networkOnce : g.network.Distinct

/-- A depth is given together with a vertex. -/
theorem known_of_depths (h : History) : ∀ entry ∈ h.depths, ∃ v ∈ h.vertices, v.id = entry.1 := by
  induction h with
  | start maxDepth => simp [depths]
  | addVertex h v hv depth ih =>
    intro entry hentry
    rcases List.mem_append.mp hentry with hentry | hentry
    · obtain ⟨w, hw, hid⟩ := ih entry hentry
      exact ⟨w, List.mem_append_left _ hw, hid⟩
    · obtain ⟨_, _, rfl⟩ := List.mem_map.mp hentry
      exact ⟨v, by simp [vertices], rfl⟩
  | addEdge h e ih =>
    intro entry hentry
    obtain ⟨w, hw, hid⟩ := ih entry hentry
    exact ⟨w, List.mem_append_left _ hw, hid⟩
  | putNetwork h v hv depth ih =>
    intro entry hentry
    obtain ⟨w, hw, hid⟩ := ih entry hentry
    exact ⟨w, List.mem_append_left _ hw, hid⟩
  | merge h other ih ihother =>
    intro entry hentry
    rcases List.mem_append.mp hentry with hentry | hentry
    · obtain ⟨w, hw, hid⟩ := ih entry hentry
      exact ⟨w, List.mem_append_left _ hw, hid⟩
    · obtain ⟨w, hw, hid⟩ := ihother entry hentry
      exact ⟨w, List.mem_append_right _ hw, hid⟩

theorem builds_start (maxDepth : Option Int) : Builds (start maxDepth) (.empty maxDepth) where
  wellFormed := MemoryGraph.wellFormed_empty maxDepth
  mapped := by simp [MemoryGraph.Mapped, MemoryGraph.empty]
  vertices := by simp [MemoryGraph.vertexIds, MemoryGraph.empty, History.vertices]
  edges _ := rfl
  annotations _ _ := rfl
  depths _ _ := iff_of_false Depths.not_atMost_empty (by simp [History.depths])
  network _ _ := iff_of_false Depths.not_atMost_empty (by simp [History.network])
  networkOnce := List.nodup_nil

namespace Builds

variable {h other : History} {g g' : MemoryGraph} {v : Vertex}

theorem addVertex (hg : h.Builds g) (hv : v.annotations.Distinct) (depth : Option Int) :
    (h.addVertex v hv depth).Builds (g.addVertex v depth) := by
  have hadds := MemoryGraph.adds_addVertex g v depth
  have hrecords := MemoryGraph.records_addVertex [] g v depth
  refine ⟨hadds.wellFormed hg.wellFormed, hg.mapped.addVertex hv depth, fun id => ?_, fun id => ?_,
    fun id key => ?_, fun id n => ?_, fun id n => ?_, hrecords.distinct hg.networkOnce⟩
  · rw [hadds.vertices, hg.vertices]
    simp [History.vertices, or_and_right, exists_or, eq_comm]
  · rw [MemoryGraph.findEdge?, MemoryGraph.edges_addVertex]
    exact hg.edges id
  · rw [MemoryGraph.overlays_addVertex hv depth id key, hg.annotations, History.vertices,
      annotationOf?_append]
    simp [annotationOf?]
  · rw [hrecords.depths, hg.depths]
    cases depth <;> simp [History.depths, or_and_right, exists_or, eq_comm]
  · rw [hrecords.network, hg.network]
    simp [History.network]

theorem addEdge (hg : h.Builds g) (e : Edge) : (h.addEdge e).Builds (g.addEdge e) := by
  have hadds := MemoryGraph.adds_addEdge_ends g e
  have hrecords := MemoryGraph.records_addEdge (List.mem_singleton_self e) g
  have hknown : (h.edge? e.id).isSome = true ↔ e.id ∈ g.edgeIds := by
    rw [← hg.edges, ← MemoryGraph.hasEdge_iff, MemoryGraph.hasEdge]
  refine ⟨hadds.wellFormed hg.wellFormed, hg.mapped.addEdge e, fun id => ?_, fun id => ?_,
    fun id key => ?_, fun id n => ?_, fun id n => ?_, hrecords.distinct hg.networkOnce⟩
  · rw [hadds.vertices, hg.vertices, ← hknown, History.vertices]
    split
    · next hedge => simp [hedge]
    · next hedge => simp [hedge, or_and_right, exists_or, eq_comm]
  · rw [MemoryGraph.findEdge?_addEdge, hg.edges, edge?, edge?, History.edges, List.find?_append]
    simp
  · rw [MemoryGraph.overlays_addEdge e id key, hg.annotations, History.vertices,
      annotationOf?_append]
    split <;> simp [annotationOf?, Vertex.getFor?_empty]
  · rw [hrecords.depths, hg.depths]
    simp [History.depths]
  · rw [hrecords.network, hg.network]
    simp [History.network]

theorem putNetwork (hg : h.Builds g) (hv : v.annotations.Distinct) (depth : Int) :
    (h.putNetwork v hv depth).Builds (g.putNetwork v depth) := by
  have hadds := MemoryGraph.adds_putNetwork g v depth
  have hrecords := MemoryGraph.records_putNetwork [] g v depth
  refine ⟨hadds.wellFormed hg.wellFormed, hg.mapped.addVertex hv none, fun id => ?_, fun id => ?_,
    fun id key => ?_, fun id n => ?_, fun id n => ?_, hrecords.distinct hg.networkOnce⟩
  · rw [hadds.vertices, hg.vertices]
    simp [History.vertices, or_and_right, exists_or, eq_comm]
  · rw [MemoryGraph.findEdge?, MemoryGraph.edges_putNetwork]
    exact hg.edges id
  · rw [MemoryGraph.overlays_putNetwork hv depth id key, hg.annotations, History.vertices,
      annotationOf?_append]
    simp [annotationOf?]
  · rw [hrecords.depths, hg.depths]
    simp [History.depths]
  · rw [hrecords.network, hg.network]
    simp [History.network, or_and_right, exists_or, eq_comm]

theorem merge (hg : h.Builds g) (hg' : other.Builds g') : (h.merge other).Builds (g.merge g') := by
  have hadds := MemoryGraph.adds_merge g hg'.wellFormed
  have hrecords := MemoryGraph.records_merge g hg'.networkOnce (List.Subset.refl g'.edges)
  refine ⟨hadds.wellFormed hg.wellFormed, hg.mapped.merge hg'.mapped, fun id => ?_, fun id => ?_,
    fun id key => ?_, fun id n => ?_, fun id n => ?_, hrecords.distinct hg.networkOnce⟩
  · rw [hadds.vertices, hg.vertices, hg'.vertices]
    simp [History.vertices, or_and_right, exists_or]
  · rw [MemoryGraph.findEdge?_merge, hg.edges, hg'.edges, edge?, edge?, edge?, History.edges,
      List.find?_append]
  · rw [MemoryGraph.overlays_merge hg'.wellFormed hg'.mapped id key, hg.annotations, hg'.annotations,
      History.vertices, annotationOf?_append]
  · have hknown : g'.depths.AtMost id n → id ∈ g'.vertexIds := by
      rw [hg'.depths, hg'.vertices]
      rintro ⟨entry, hentry, rfl, _⟩
      exact other.known_of_depths entry hentry
    rw [hrecords.depths, and_iff_right_of_imp hknown, hg.depths, hg'.depths]
    simp [History.depths, or_and_right, exists_or]
  · rw [hrecords.network, hg.network, hg'.network]
    simp [History.network, or_and_right, exists_or]

end Builds

theorem builds_graph (h : History) : h.Builds h.graph := by
  induction h with
  | start maxDepth => exact builds_start maxDepth
  | addVertex h v hv depth ih => exact ih.addVertex hv depth
  | addEdge h e ih => exact ih.addEdge e
  | putNetwork h v hv depth ih => exact ih.putNetwork hv depth
  | merge h other ih ihother => exact ih.merge ihother

end History

/-! ## Answers of graphs -/

/-- The view is that of the graph, up to the order of neighbours. -/
structure GraphView.Shows (view : GraphView) (g : MemoryGraph) : Prop where
  vertices : view.vertices = g.vertices
  edges : view.edges = g.edges
  vertexCount : view.vertexCount = g.vertices.length
  edgeCount : view.edgeCount = g.edges.length
  depths : ∀ id, view.depth? id = g.depth? id
  network : view.network = g.network.entries
  parents : ∀ id ∈ g.vertexIds, view.AnswersNeighbours .ancestor id (view.parents id)
  children : ∀ id ∈ g.vertexIds, view.AnswersNeighbours .descendant id (view.children id)
  edgesBetweenOnce : ∀ child parent, (view.edgesBetween child parent).Nodup
  edgesBetween : ∀ child parent e, e ∈ view.edgesBetween child parent ↔
    e ∈ g.edges ∧ e.child = child ∧ e.parent = parent

/-- A view of a graph is one of what was added. -/
theorem History.Builds.describes {h : History} {g : MemoryGraph} {view : GraphView}
    (hg : h.Builds g) (hview : view.Shows g) : h.Describes view := by
  have hids : view.ids = g.vertexIds := by rw [GraphView.ids, hview.vertices, MemoryGraph.vertexIds]
  have hwell := hg.wellFormed
  have hnetwork (id : String) : g.network.get? id = leastDepth? h.network id :=
    leastDepth?_eq (hg.network id)
  refine ⟨hids ▸ hwell.vertices, fun id => ?_, ?_, fun e => ?_, fun e he => ?_, ?_, ?_,
    fun v hv key => ?_, fun id => ?_, ?_, fun id depth => ?_, fun entry hentry => ?_,
    fun id hid => hview.parents id (hids ▸ hid), fun id hid => hview.children id (hids ▸ hid),
    hview.edgesBetweenOnce, fun child parent e => ?_⟩
  · rw [hids, hg.vertices]
  · rw [hview.edges]
    exact hwell.edges
  · rw [hview.edges, ← hg.edges, hwell.findEdge?_eq_some, and_iff_left rfl]
  · rw [hview.edges] at he
    exact hids ▸ hwell.ends e he
  · rw [hview.vertexCount, hview.vertices]
  · rw [hview.edgeCount, hview.edges]
  · rw [hview.vertices] at hv
    rw [← hg.annotations, MemoryGraph.annotation?, hwell.findVertex?_eq_some.mpr ⟨hv, rfl⟩]
    rfl
  · rw [hview.depths]
    exact leastDepth?_eq (hg.depths id)
  · rw [hview.network]
    exact hg.networkOnce
  · rw [hview.network, ← hnetwork]
    exact (lookup_eq_some_iff_mem hg.networkOnce).symm
  · rw [hview.network] at hentry
    exact hids ▸ hwell.network entry hentry
  · rw [hview.edgesBetween, hview.edges]

namespace MemoryGraph

variable {g : MemoryGraph} {id : String}

/-- What the graph itself answers. -/
def view (g : MemoryGraph) : GraphView where
  vertices := g.vertices
  edges := g.edges
  vertexCount := g.vertices.length
  edgeCount := g.edges.length
  depth? := g.depth?
  network := g.network.entries
  parents id := (g.parents id).toOption
  children id := (g.children id).toOption
  edgesBetween := g.edgesBetween

theorem nodup_verticesOf (g : MemoryGraph) (ids : List String) :
    ((g.verticesOf ids).map (·.id)).Nodup := by
  have hfound (id : String) :
      (g.findVertex? id).map (·.id) = Option.guard (fun id => g.hasVertex id) id := by
    cases hfind : g.findVertex? id with
    | none => simp [Option.guard, hasVertex, hfind]
    | some v => simpa [hasVertex, hfind] using List.find?_some hfind
  have hids : (g.verticesOf ids).map (·.id) = ids.eraseDups.filter g.hasVertex := by
    simp only [verticesOf, List.map_filterMap, hfound, List.filterMap_eq_filter]
  rw [hids]
  exact (Value.nodup_eraseDups ids).filter _

theorem WellFormed.answersNeighbours (h : g.WellFormed) (way : Way) {answer : Except Error (List Vertex)}
    (hanswer : (Source.graph g).neighbours way id = answer) (hid : id ∈ g.vertexIds) :
    g.view.AnswersNeighbours way id answer.toOption := by
  rw [neighbours_eq, if_pos (hasVertex_iff.mpr hid)] at hanswer
  subst hanswer
  refine ⟨_, rfl, g.nodup_verticesOf _, fun v => ?_⟩
  rw [h.mem_verticesOf]
  simp [view, and_assoc]

theorem WellFormed.shows_view (h : g.WellFormed) : g.view.Shows g where
  vertices := rfl
  edges := rfl
  vertexCount := rfl
  edgeCount := rfl
  depths _ := rfl
  network := rfl
  parents id hid := h.answersNeighbours .ancestor (if_pos (hasVertex_iff.mpr hid)) hid
  children id hid := h.answersNeighbours .descendant (if_pos (hasVertex_iff.mpr hid)) hid
  edgesBetweenOnce child parent := (List.Nodup.of_map _ h.edges).filter _
  edgesBetween child parent e := by simp [view, edgesBetween]

end MemoryGraph
end Provenance
