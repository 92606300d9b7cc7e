-- SUMMARY: Depths recorded at vertices, described by the bounds that they meet.
import Provenance.Proofs.MemoryGraphs
import Provenance.Proofs.Sources

/-!
# Recorded depths

A graph in memory keeps the least depth at which a vertex was reached, and the least depth at which it
was put among the network vertices. What is recorded is described by the bounds it meets: recording a
depth adds the bounds from this depth on, so operations one after the other record what any of them
records. `Records` says this of graphs, beside `Adds`, which says it of ids.
-/
namespace Provenance

namespace Depths

variable {d : Depths} {u id : String} {m n depth : Int}

/-- No id has two depths. -/
def Distinct (d : Depths) : Prop := (d.entries.map (·.1)).Nodup

/-- A depth is recorded for the id, and it is no more than `n`. -/
def AtMost (d : Depths) (u : String) (n : Int) : Prop := ∃ m ≤ n, d.get? u = some m

theorem not_atMost_empty : ¬Depths.empty.AtMost u n := by
  simp [AtMost, get?, empty]

/-- The recorded depth is the least bound. -/
theorem get?_eq_some_iff : d.get? u = some m ↔ d.AtMost u m ∧ ¬d.AtMost u (m - 1) := by
  constructor
  · intro h
    refine ⟨⟨m, le_rfl, h⟩, ?_⟩
    rintro ⟨m', hm', h'⟩
    obtain rfl := Option.some.inj (h.symm.trans h')
    omega
  · rintro ⟨⟨m', hm', h⟩, hleast⟩
    have hle : m ≤ m' := by
      by_contra hlt
      exact hleast ⟨m', by omega, h⟩
    rw [h, le_antisymm hm' hle]

/-- Where the bounds are those of certain numbers, the recorded depth is that of the least. -/
theorem get?_eq_some_iff_isLeast {P : Nat → Prop} {f : Nat → Nat} {k : Nat} (hf : Monotone f)
    (h : ∀ n, d.AtMost u n ↔ ∃ m ≤ k, (f m : Int) ≤ n ∧ P m) :
    d.get? u = some n ↔ ∃ m ≤ k, IsLeast { i | P i } m ∧ n = f m := by
  classical
  rw [get?_eq_some_iff, h, h]
  constructor
  · rintro ⟨⟨m, hm, hn, hP⟩, hless⟩
    have hex : ∃ i, P i := ⟨m, hP⟩
    have hle : Nat.find hex ≤ m := Nat.find_min' hex hP
    have hfle : f (Nat.find hex) ≤ f m := hf hle
    have hnot : ¬(f (Nat.find hex) : Int) ≤ n - 1 := fun hlt =>
      hless ⟨_, hle.trans hm, hlt, Nat.find_spec hex⟩
    refine ⟨_, hle.trans hm, ⟨Nat.find_spec hex, fun i hi => Nat.find_min' hex hi⟩, ?_⟩
    omega
  · rintro ⟨m, hm, ⟨hP, hleast⟩, rfl⟩
    refine ⟨⟨m, hm, le_rfl, hP⟩, ?_⟩
    rintro ⟨i, _, hlt, hi⟩
    have hfle : f m ≤ f i := hf (hleast hi)
    omega

theorem get?_lower : (d.lower id depth).get? u =
    if u = id then some (((d.get? id).map (min depth)).getD depth) else d.get? u := by
  unfold lower
  cases hknown : d.get? id with
  | none =>
    have hnone : d.entries.lookup id = none := hknown
    by_cases hu : u = id
    · subst hu
      simp [get?, List.lookup_append, hnone]
    · simp [get?, List.lookup_append, List.lookup_cons, beq_false_of_ne hu, hu]
  | some known =>
    by_cases hlt : depth < known
    · by_cases hu : u = id
      · subst hu
        simp [hlt, get?, lookup_replace, show d.entries.lookup u = some known from hknown,
          min_eq_left hlt.le]
      · simp [hlt, get?, lookup_replace, hu]
    · by_cases hu : u = id
      · subst hu
        simp [hlt, hknown, min_eq_right (not_lt.mp hlt)]
      · simp [hlt, hu]

/-- A depth that is recorded adds the bounds from it on. -/
theorem atMost_lower : (d.lower id depth).AtMost u n ↔ d.AtMost u n ∨ u = id ∧ depth ≤ n := by
  unfold AtMost
  rw [get?_lower]
  by_cases hu : u = id
  · subst hu
    cases d.get? u <;> simp [or_comm]
  · simp [hu]

theorem Distinct.lower (h : d.Distinct) : (d.lower id depth).Distinct := by
  unfold Depths.lower
  split
  · next hnone =>
    have hnew : id ∉ d.entries.map (·.1) := by
      rintro hmem
      obtain ⟨⟨_, known⟩, hin, rfl⟩ := List.mem_map.mp hmem
      rw [show d.get? _ = some known from (lookup_eq_some_iff_mem h).mpr hin] at hnone
      cases hnone
    simpa [Distinct] using List.concat_eq_append ▸ List.Nodup.concat hnew h
  · split
    · simpa only [Distinct, keys_replace] using h
    · exact h

theorem Distinct.atMost_iff (h : d.Distinct) :
    d.AtMost u n ↔ ∃ entry ∈ d.entries, u = entry.1 ∧ entry.2 ≤ n := by
  constructor
  · rintro ⟨m, hm, hget⟩
    exact ⟨(u, m), (lookup_eq_some_iff_mem h).mp hget, rfl, hm⟩
  · rintro ⟨⟨u, m⟩, hmem, rfl, hm⟩
    exact ⟨m, hm, (lookup_eq_some_iff_mem h).mpr hmem⟩

end Depths

namespace MemoryGraph

variable {g g' g'' other : MemoryGraph} {es : List Edge} {e : Edge} {id u : String} {n : Int}

/-- From one graph to the other these depths and network depths are recorded, each with all bounds
from it on, and edges are added only from the list. -/
structure Records (es : List Edge) (g g' : MemoryGraph) (D N : String → Int → Prop) : Prop where
  depths : ∀ u n, g'.depths.AtMost u n ↔ g.depths.AtMost u n ∨ D u n
  network : ∀ u n, g'.network.AtMost u n ↔ g.network.AtMost u n ∨ N u n
  distinct : g.network.Distinct → g'.network.Distinct
  edges : g.edges ⊆ es → g'.edges ⊆ es

namespace Records

variable {D D' N N' : String → Int → Prop}

theorem refl (es : List Edge) (g : MemoryGraph) :
    Records es g g (fun _ _ => False) (fun _ _ => False) :=
  ⟨by simp, by simp, id, id⟩

theorem trans (h : Records es g g' D N) (h' : Records es g' g'' D' N') :
    Records es g g'' (fun u n => D u n ∨ D' u n) (fun u n => N u n ∨ N' u n) where
  depths u n := by rw [h'.depths, h.depths, or_assoc]
  network u n := by rw [h'.network, h.network, or_assoc]
  distinct hg := h'.distinct (h.distinct hg)
  edges hg := h'.edges (h.edges hg)

theorem congr (h : Records es g g' D N) (hD : ∀ u n, D u n ↔ D' u n) (hN : ∀ u n, N u n ↔ N' u n) :
    Records es g g' D' N' :=
  ⟨fun u n => by rw [h.depths, hD], fun u n => by rw [h.network, hN], h.distinct, h.edges⟩

/-- What has no part in this may differ. -/
theorem same (h : Records es g g' D N) (hdepths : g''.depths = g'.depths)
    (hnetwork : g''.network = g'.network) (hedges : g''.edges = g'.edges) :
    Records es g g'' D N where
  depths u n := by rw [hdepths, h.depths]
  network u n := by rw [hnetwork, h.network]
  distinct hg := hnetwork ▸ h.distinct hg
  edges hg := hedges ▸ h.edges hg

/-- Operations one after the other record what any of them records. -/
theorem foldl {α : Type} {f : MemoryGraph → α → MemoryGraph} {D N : α → String → Int → Prop}
    {as : List α} (h : ∀ a ∈ as, ∀ g, Records es g (f g a) (D a) (N a)) (g : MemoryGraph) :
    Records es g (as.foldl f g) (fun u n => ∃ a ∈ as, D a u n) (fun u n => ∃ a ∈ as, N a u n) := by
  induction as generalizing g with
  | nil => exact (refl es g).congr (by simp) (by simp)
  | cons a as ih =>
    have hfirst := h a (by simp) g
    have hrest := ih (fun b hb => h b (by simp [hb])) (f g a)
    exact (hfirst.trans hrest).congr (by simp) (by simp)

end Records

/-! ## Single operations -/

@[simp] theorem depths_insertVertex (g : MemoryGraph) (v : Vertex) :
    (g.insertVertex v).depths = g.depths := by
  unfold insertVertex
  split <;> rfl

theorem records_insertVertex (es : List Edge) (g : MemoryGraph) (v : Vertex) :
    Records es g (g.insertVertex v) (fun _ _ => False) (fun _ _ => False) :=
  (Records.refl es g).same (by simp) (by simp) (by simp)

theorem records_addVertex (es : List Edge) (g : MemoryGraph) (v : Vertex) (depth : Option Int) :
    Records es g (g.addVertex v depth) (fun u n => u = v.id ∧ ∃ m ∈ depth, m ≤ n)
      (fun _ _ => False) := by
  have hinsert := records_insertVertex es g v
  cases depth with
  | none => exact hinsert.congr (by simp) (by simp)
  | some depth =>
    refine ⟨fun u n => ?_, hinsert.network, hinsert.distinct, hinsert.edges⟩
    simp [addVertex, Depths.atMost_lower]

theorem records_putNetwork (es : List Edge) (g : MemoryGraph) (v : Vertex) (depth : Int) :
    Records es g (g.putNetwork v depth) (fun _ _ => False) (fun u n => u = v.id ∧ depth ≤ n) := by
  have hinsert := records_insertVertex es g v
  refine ⟨hinsert.depths, fun u n => ?_, fun hg => ?_, hinsert.edges⟩
  · simp [putNetwork, addVertex, Depths.atMost_lower]
  · exact (hinsert.distinct hg).lower

theorem records_addEdge (he : e ∈ es) (g : MemoryGraph) :
    Records es g (g.addEdge e) (fun _ _ => False) (fun _ _ => False) := by
  have hend (id : String) (g : MemoryGraph) :
      Records es g (g.addEndpoint id) (fun _ _ => False) (fun _ _ => False) := by
    unfold addEndpoint
    split
    · exact .refl es g
    · exact (records_addVertex es g ⟨id, .empty⟩ none).congr (by simp) (by simp)
  unfold addEdge
  split
  · exact .refl es g
  · have hends : Records es g ((g.addEndpoint e.child).addEndpoint e.parent) (fun _ _ => False)
        (fun _ _ => False) :=
      ((hend e.child g).trans (hend e.parent _)).congr (by simp) (by simp)
    refine ⟨hends.depths, hends.network, hends.distinct, fun hg => ?_⟩
    exact List.append_subset.mpr ⟨hends.edges hg, by simpa using he⟩

theorem records_addEdges {added : List Edge} (g : MemoryGraph) (hadded : added ⊆ es) :
    Records es g (added.foldl addEdge g) (fun _ _ => False) (fun _ _ => False) :=
  (Records.foldl (fun e he g => records_addEdge (hadded he) g) g).congr (by simp) (by simp)

/-- The union records what the other graph has recorded for its vertices. -/
theorem records_merge (g : MemoryGraph) (hdistinct : other.network.Distinct)
    (hedges : other.edges ⊆ es) :
    Records es g (g.merge other) (fun u n => u ∈ other.vertexIds ∧ other.depths.AtMost u n)
      other.network.AtMost := by
  have hvertices : Records es g
      (other.vertices.foldl (fun g v => g.addVertex v (other.depth? v.id)) g) _ _ :=
    .foldl (fun v _ g => records_addVertex es g v (other.depth? v.id)) g
  have hvertexOf (entry : String × Int) :
      ((other.findVertex? entry.1).getD ⟨entry.1, .empty⟩).id = entry.1 := by
    cases hfind : other.findVertex? entry.1 with
    | none => rfl
    | some v => simpa [hfind] using List.find?_some hfind
  have hnetwork (g : MemoryGraph) : Records es g (other.network.entries.foldl
      (fun g entry => g.putNetwork ((other.findVertex? entry.1).getD ⟨entry.1, .empty⟩) entry.2) g)
      _ _ := .foldl (fun entry _ g => records_putNetwork es g _ entry.2) g
  have hsum := (hvertices.trans (records_addEdges _ hedges)).trans (hnetwork _)
  refine (hsum.congr (fun u n => ?_) fun u n => ?_).same rfl rfl rfl
  · simp only [and_false, exists_false, or_false, vertexIds, List.mem_map]
    constructor
    · rintro ⟨v, hv, rfl, m, hget, hm⟩
      exact ⟨⟨v, hv, rfl⟩, m, hm, hget⟩
    · rintro ⟨⟨v, hv, rfl⟩, m, hm, hget⟩
      exact ⟨v, hv, rfl, m, hget, hm⟩
  · simp only [hvertexOf, hdistinct.atMost_iff, exists_false, and_false, false_or]

end MemoryGraph
end Provenance
