-- SUMMARY: Directed graphs as a class of data structures, with an instance made of lists.
import Provenance.Elements
import Mathlib.Data.List.Nodup
import Mathlib.Data.Option.Basic

/-!
# Directed graphs

What a graph in memory may be kept in: a directed graph that holds a vertex at each node and an edge on
each link, and knows both by indices. No more is asked of it than that indices stay what they are and
that parallel links are kept apart. Two lists, whose places are the indices, are such a graph.
-/
namespace Provenance

/-- An edge between two nodes. -/
structure Link where
  source : Nat
  target : Nat
  edge : Edge

/-- A directed graph with vertices at its nodes and edges on its links. Both are known by indices. -/
class DirectedGraph (D : Type) where
  empty : D
  addNode : D → Vertex → D × Nat
  setNode : D → Nat → Vertex → D
  addLink : D → Nat → Nat → Edge → D × Nat
  node? : D → Nat → Option Vertex
  link? : D → Nat → Option Link
  successors : D → Nat → List Nat
  predecessors : D → Nat → List Nat
  outLinks : D → Nat → List Link
  nodeCount : D → Nat
  linkCount : D → Nat

open DirectedGraph

/-- Indices are stable: what is added gets an index of its own and leaves the others alone. The links of
a node are found, parallel ones apart. -/
class LawfulDirectedGraph (D : Type) [DirectedGraph D] : Prop where
  link?_empty : ∀ k, link? (empty : D) k = none
  nodeCount_empty : nodeCount (empty : D) = 0
  linkCount_empty : linkCount (empty : D) = 0
  node?_fresh : ∀ (d : D) v, node? d (addNode d v).2 = none
  node?_addNode : ∀ (d : D) v i,
    node? (addNode d v).1 i = if i = (addNode d v).2 then some v else node? d i
  link?_addNode : ∀ (d : D) v k, link? (addNode d v).1 k = link? d k
  nodeCount_addNode : ∀ (d : D) v, nodeCount (addNode d v).1 = nodeCount d + 1
  linkCount_addNode : ∀ (d : D) v, linkCount (addNode d v).1 = linkCount d
  node?_setNode : ∀ (d : D) i v j, (node? d i).isSome →
    node? (setNode d i v) j = if j = i then some v else node? d j
  link?_setNode : ∀ (d : D) i v k, (node? d i).isSome → link? (setNode d i v) k = link? d k
  nodeCount_setNode : ∀ (d : D) i v, (node? d i).isSome → nodeCount (setNode d i v) = nodeCount d
  linkCount_setNode : ∀ (d : D) i v, (node? d i).isSome → linkCount (setNode d i v) = linkCount d
  link?_fresh : ∀ (d : D) i j e, link? d (addLink d i j e).2 = none
  link?_addLink : ∀ (d : D) i j e k, (node? d i).isSome → (node? d j).isSome →
    link? (addLink d i j e).1 k = if k = (addLink d i j e).2 then some ⟨i, j, e⟩ else link? d k
  node?_addLink : ∀ (d : D) i j e n, (node? d i).isSome → (node? d j).isSome →
    node? (addLink d i j e).1 n = node? d n
  nodeCount_addLink : ∀ (d : D) i j e, (node? d i).isSome → (node? d j).isSome →
    nodeCount (addLink d i j e).1 = nodeCount d
  linkCount_addLink : ∀ (d : D) i j e, (node? d i).isSome → (node? d j).isSome →
    linkCount (addLink d i j e).1 = linkCount d + 1
  mem_successors : ∀ (d : D) i j,
    j ∈ successors d i ↔ ∃ k e, link? d k = some ⟨i, j, e⟩
  mem_predecessors : ∀ (d : D) i j,
    j ∈ predecessors d i ↔ ∃ k e, link? d k = some ⟨j, i, e⟩
  outLinks_eq : ∀ (d : D) i, ∃ ks : List Nat, ks.Nodup ∧
    (∀ k, k ∈ ks ↔ ∃ j e, link? d k = some ⟨i, j, e⟩) ∧ (outLinks d i).map some = ks.map (link? d)

/-- The links that leave a node are those that are found and have it as their source. -/
theorem LawfulDirectedGraph.mem_outLinks_iff {D : Type} [DirectedGraph D] [LawfulDirectedGraph D]
    {d : D} {i : Nat} {l : Link} : l ∈ outLinks d i ↔ l.source = i ∧ ∃ k, link? d k = some l := by
  obtain ⟨ks, _, hks, hout⟩ := outLinks_eq d i
  have hmem : l ∈ outLinks d i ↔ ∃ k ∈ ks, link? d k = some l := by
    rw [← List.mem_map, ← hout, List.mem_map_of_injective (Option.some_injective Link)]
  rw [hmem]
  constructor
  · rintro ⟨k, hk, hlink⟩
    obtain ⟨j, e, hlink'⟩ := (hks k).mp hk
    obtain rfl : l = ⟨i, j, e⟩ := Option.some.inj (hlink.symm.trans hlink')
    exact ⟨rfl, k, hlink⟩
  · rintro ⟨rfl, k, hlink⟩
    exact ⟨k, (hks k).mpr ⟨l.target, l.edge, hlink⟩, hlink⟩

/-! ## Directed graphs in lists -/

/-- Nodes and links in the order in which they were added. Their places are their indices. -/
structure ListedGraph where
  nodes : List Vertex
  links : List Link

namespace ListedGraph

instance : DirectedGraph ListedGraph where
  empty := ⟨[], []⟩
  addNode d v := (⟨d.nodes ++ [v], d.links⟩, d.nodes.length)
  setNode d i v := ⟨d.nodes.set i v, d.links⟩
  addLink d i j e := (⟨d.nodes, d.links ++ [⟨i, j, e⟩]⟩, d.links.length)
  node? d i := d.nodes[i]?
  link? d k := d.links[k]?
  successors d i := (d.links.filter (·.source = i)).map (·.target)
  predecessors d i := (d.links.filter (·.target = i)).map (·.source)
  outLinks d i := d.links.filter (·.source = i)
  nodeCount d := d.nodes.length
  linkCount d := d.links.length

theorem getElem?_concat {α : Type} (as : List α) (a : α) (i : Nat) :
    (as ++ [a])[i]? = if i = as.length then some a else as[i]? := by
  split
  · next h => simp [h]
  · next h =>
    rcases Nat.lt_or_gt_of_ne h with hlt | hgt
    · exact List.getElem?_append_left hlt
    · have hlength : (as ++ [a]).length ≤ i := by
        rw [List.length_append]
        exact hgt
      rw [List.getElem?_eq_none hlength, List.getElem?_eq_none (Nat.le_of_lt hgt)]

theorem exists_places {α : Type} (as : List α) (p : α → Bool) : ∃ ks : List Nat, ks.Nodup ∧
    (∀ k, k ∈ ks ↔ ∃ a, p a = true ∧ as[k]? = some a) ∧
      (as.filter p).map some = ks.map (as[·]?) := by
  refine ⟨(as.zipIdx.filter fun entry => p entry.1).map (·.2), ?_, fun k => ?_, ?_⟩
  · have hplaces : (as.zipIdx.map (·.2)).Nodup := by
      rw [List.zipIdx_map_snd]
      exact List.nodup_range' ..
    exact hplaces.sublist (List.filter_sublist.map _)
  · simp [List.mem_zipIdx_iff_getElem?, and_comm]
  · have hkept : as.filter p = (as.zipIdx.filter fun entry => p entry.1).map (·.1) := by
      conv_lhs => rw [← List.zipIdx_map_fst 0 as]
      rw [List.filter_map]
      rfl
    rw [hkept, List.map_map, List.map_map]
    refine List.map_congr_left fun entry hentry => ?_
    exact (List.mem_zipIdx_iff_getElem?.mp (List.mem_of_mem_filter hentry)).symm

variable {d : ListedGraph} {i j : Nat}

theorem node?_setNode (v : Vertex) (h : (node? d i).isSome = true) :
    node? (setNode d i v) j = if j = i then some v else node? d j := by
  have hi : i < d.nodes.length := by simpa [node?] using h
  simp only [node?, setNode, List.getElem?_set, if_pos hi, eq_comm]

theorem mem_successors_iff : j ∈ successors d i ↔ ∃ k e, link? d k = some ⟨i, j, e⟩ := by
  rw [exists_comm]
  simp only [link?, ← List.mem_iff_getElem?]
  simp only [successors, List.mem_map, List.mem_filter, decide_eq_true_eq]
  constructor
  · rintro ⟨⟨_, _, e⟩, ⟨hlink, rfl⟩, rfl⟩
    exact ⟨e, hlink⟩
  · rintro ⟨e, hlink⟩
    exact ⟨_, ⟨hlink, rfl⟩, rfl⟩

theorem mem_predecessors_iff : j ∈ predecessors d i ↔ ∃ k e, link? d k = some ⟨j, i, e⟩ := by
  rw [exists_comm]
  simp only [link?, ← List.mem_iff_getElem?]
  simp only [predecessors, List.mem_map, List.mem_filter, decide_eq_true_eq]
  constructor
  · rintro ⟨⟨_, _, e⟩, ⟨hlink, rfl⟩, rfl⟩
    exact ⟨e, hlink⟩
  · rintro ⟨e, hlink⟩
    exact ⟨_, ⟨hlink, rfl⟩, rfl⟩

theorem outLinks_eq (d : ListedGraph) (i : Nat) : ∃ ks : List Nat, ks.Nodup ∧
    (∀ k, k ∈ ks ↔ ∃ j e, link? d k = some ⟨i, j, e⟩) ∧ (outLinks d i).map some = ks.map (link? d) := by
  obtain ⟨ks, hnodup, hks, hout⟩ := exists_places d.links (·.source = i)
  refine ⟨ks, hnodup, fun k => ?_, hout⟩
  rw [hks]
  constructor
  · rintro ⟨⟨_, j, e⟩, hsource, hlink⟩
    obtain rfl := of_decide_eq_true hsource
    exact ⟨j, e, hlink⟩
  · rintro ⟨j, e, hlink⟩
    exact ⟨_, decide_eq_true rfl, hlink⟩

instance : LawfulDirectedGraph ListedGraph where
  link?_empty _ := rfl
  nodeCount_empty := rfl
  linkCount_empty := rfl
  node?_fresh _ _ := List.getElem?_eq_none (Nat.le_refl _)
  node?_addNode d v i := getElem?_concat d.nodes v i
  link?_addNode _ _ _ := rfl
  nodeCount_addNode _ _ := List.length_append
  linkCount_addNode _ _ := rfl
  node?_setNode _ _ v _ h := node?_setNode v h
  link?_setNode _ _ _ _ _ := rfl
  nodeCount_setNode _ _ _ _ := List.length_set
  linkCount_setNode _ _ _ _ := rfl
  link?_fresh _ _ _ _ := List.getElem?_eq_none (Nat.le_refl _)
  link?_addLink d i j e k _ _ := getElem?_concat d.links ⟨i, j, e⟩ k
  node?_addLink _ _ _ _ _ _ _ := rfl
  nodeCount_addLink _ _ _ _ _ _ := rfl
  linkCount_addLink _ _ _ _ _ _ := List.length_append
  mem_successors _ _ _ := mem_successors_iff
  mem_predecessors _ _ _ := mem_predecessors_iff
  outLinks_eq := outLinks_eq

end ListedGraph

end Provenance
