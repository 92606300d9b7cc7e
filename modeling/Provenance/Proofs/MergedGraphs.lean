-- SUMMARY: The order of graphs in memory by contents, with merges as least upper bounds.
import Provenance.Proofs.IndexedGraphs

/-!
# Merged graphs

Graphs in memory are ordered by what they contain: vertices with their annotations, edges, and depths,
of which the lesser one is the more. Where graphs do not contradict each other, their merge is the least
graph that contains both. So it does not matter in which order or grouping graphs are merged, and a
graph that is contained already changes nothing when it is merged once more.
-/
namespace Provenance

namespace Depths

variable {d d' : Depths} {id : String} {depth : Int}

theorem get?_eq_get?_iff : d.get? id = d'.get? id ↔ ∀ n, d.AtMost id n ↔ d'.AtMost id n := by
  constructor
  · intro h n
    simp only [AtMost, h]
  · intro h
    apply Option.ext
    intro n
    rw [get?_eq_some_iff, get?_eq_some_iff, h, h]

/-- A depth is only recorded where none as small is known. -/
theorem lower_of_atMost (h : d.AtMost id depth) : d.lower id depth = d := by
  obtain ⟨known, hle, hknown⟩ := h
  simp [lower, hknown, not_lt.mpr hle]

end Depths

namespace MemoryGraph

/-- The graph is built in some way. Its root, its bound and its mark take no part in that. -/
def IsBuilt (g : MemoryGraph) : Prop :=
  ∃ h : History, g = { h.graph with root := g.root, maxDepth := g.maxDepth, computed := g.computed }

/-- What of a graph is kept in step. -/
structure Sound (g : MemoryGraph) : Prop where
  wellFormed : g.WellFormed
  mapped : g.Mapped
  networkOnce : g.network.Distinct
  depthsKnown : ∀ id n, g.depths.AtMost id n → id ∈ g.vertexIds

/-! ## What graphs contain -/

/-- Graphs do not contradict each other: equal ids are those of the same edge, and where both annotate a
vertex under one key they do so alike. What counts as the same edge is left open. -/
structure Agrees (same : Setoid Edge) (g g' : MemoryGraph) : Prop where
  edges : ∀ e ∈ g.edges, ∀ e' ∈ g'.edges, e.id = e'.id → same.r e e'
  annotations : ∀ v ∈ g.vertices, ∀ v' ∈ g'.vertices, v.id = v'.id → ∀ key text text',
    v.get? key = some text → v'.get? key = some text' → text = text'

/-- All that one graph contains, the other contains. -/
structure Within (same : Setoid Edge) (g g' : MemoryGraph) : Prop where
  vertices : ∀ id ∈ g.vertexIds, id ∈ g'.vertexIds
  annotations : ∀ id key text, g.annotation? id key = some text → g'.annotation? id key = some text
  edges : ∀ e ∈ g.edges, ∃ e' ∈ g'.edges, e.id = e'.id ∧ same.r e e'
  depths : ∀ id n, g.depths.AtMost id n → g'.depths.AtMost id n
  network : ∀ id n, g.network.AtMost id n → g'.network.AtMost id n

/-- Graphs contain the same, in whatever order, and whatever root, bound and mark they have. -/
structure SameContents (same : Setoid Edge) (g g' : MemoryGraph) : Prop where
  vertices : ∀ id, id ∈ g.vertexIds ↔ id ∈ g'.vertexIds
  annotations : ∀ id key, g.annotation? id key = g'.annotation? id key
  edges : ∀ e ∈ g.edges, ∃ e' ∈ g'.edges, e.id = e'.id ∧ same.r e e'
  edges' : ∀ e' ∈ g'.edges, ∃ e ∈ g.edges, e.id = e'.id ∧ same.r e e'
  depths : ∀ id, g.depth? id = g'.depth? id
  network : ∀ id, g.network.get? id = g'.network.get? id

variable {same : Setoid Edge} {g g' g'' other : MemoryGraph} {v : Vertex} {e : Edge} {id : String}
  {depth : Option Int}

namespace Within

theorem refl (same : Setoid Edge) (g : MemoryGraph) : g.Within same g where
  vertices _ := fun h => h
  annotations _ _ _ := fun h => h
  edges e he := ⟨e, he, rfl, same.refl e⟩
  depths _ _ := fun h => h
  network _ _ := fun h => h

theorem trans (h : g.Within same g') (h' : g'.Within same g'') : g.Within same g'' where
  vertices id hid := h'.vertices id (h.vertices id hid)
  annotations id key text htext := h'.annotations id key text (h.annotations id key text htext)
  edges e he := by
    obtain ⟨e', he', hid, hsame⟩ := h.edges e he
    obtain ⟨e'', he'', hid', hsame'⟩ := h'.edges e' he'
    exact ⟨e'', he'', hid.trans hid', same.trans hsame hsame'⟩
  depths id n hn := h'.depths id n (h.depths id n hn)
  network id n hn := h'.network id n (h.network id n hn)

/-- Graphs that contain each other contain the same. -/
theorem antisymm (h : g.Within same g') (h' : g'.Within same g) : g.SameContents same g' where
  vertices id := ⟨h.vertices id, h'.vertices id⟩
  annotations id key := by
    apply Option.ext
    intro text
    exact ⟨h.annotations id key text, h'.annotations id key text⟩
  edges := h.edges
  edges' e' he' := by
    obtain ⟨e, he, hid, hsame⟩ := h'.edges e' he'
    exact ⟨e, he, hid.symm, same.symm hsame⟩
  depths id := Depths.get?_eq_get?_iff.mpr fun n => ⟨h.depths id n, h'.depths id n⟩
  network id := Depths.get?_eq_get?_iff.mpr fun n => ⟨h.network id n, h'.network id n⟩

end Within

namespace Agrees

theorem symm (h : g.Agrees same g') : g'.Agrees same g where
  edges e he e' he' hid := same.symm (h.edges e' he' e he hid.symm)
  annotations v hv v' hv' hid key text text' htext htext' :=
    (h.annotations v' hv' v hv hid.symm key text' text htext' htext).symm

/-- Equal ids may be those of equal records, and it is enough to compare the entries of annotations. -/
theorem of_entries (hedges : ∀ e ∈ g.edges, ∀ e' ∈ g'.edges, e.id = e'.id → e = e')
    (hentries : ∀ v ∈ g.vertices, ∀ v' ∈ g'.vertices, v.id = v'.id →
      ∀ entry ∈ v.annotations.entries, ∀ entry' ∈ v'.annotations.entries, entry.1 = entry'.1 →
        entry.2 = entry'.2) : g.Agrees same g' :=
  ⟨fun e he e' he' hid => hedges e he e' he' hid ▸ same.refl e, fun v hv v' hv' hid _ _ _ htext htext' =>
    hentries v hv v' hv' hid _ (mem_of_lookup htext) _ (mem_of_lookup htext') rfl⟩

/-- Graphs that agree agree on what they answer. -/
theorem annotation?_eq (h : g.Agrees same g') {key text text' : String}
    (htext : g.annotation? id key = some text) (htext' : g'.annotation? id key = some text') :
    text = text' := by
  obtain ⟨v, hv, htext⟩ := Option.bind_eq_some_iff.mp htext
  obtain ⟨v', hv', htext'⟩ := Option.bind_eq_some_iff.mp htext'
  have hid : v.id = v'.id := by
    have hfound : v.id = id := by simpa using List.find?_some hv
    have hfound' : v'.id = id := by simpa using List.find?_some hv'
    rw [hfound, hfound']
  exact h.annotations v (List.mem_of_find?_eq_some hv) v' (List.mem_of_find?_eq_some hv') hid key
    text text' htext htext'

end Agrees

/-! ## Merges -/

namespace Sound

theorem merge (hg : g.Sound) (hother : other.Sound) : (g.merge other).Sound := by
  have hadds := adds_merge g hother.wellFormed
  have hrecords := records_merge g hother.networkOnce (List.Subset.refl other.edges)
  refine ⟨hadds.wellFormed hg.wellFormed, hg.mapped.merge hother.mapped,
    hrecords.distinct hg.networkOnce, fun id n h => ?_⟩
  rw [hrecords.depths] at h
  rw [hadds.vertices]
  exact h.imp (hg.depthsKnown id n) And.left

theorem mem_vertexIds_merge (hother : other.Sound) :
    id ∈ (g.merge other).vertexIds ↔ id ∈ g.vertexIds ∨ id ∈ other.vertexIds :=
  (adds_merge g hother.wellFormed).vertices id

theorem annotation?_merge (hother : other.Sound) (id key : String) :
    (g.merge other).annotation? id key = (other.annotation? id key).or (g.annotation? id key) :=
  overlays_merge hother.wellFormed hother.mapped id key

/-- Of two edges under one id the one that was there stays. -/
theorem mem_edges_merge (hg : g.Sound) (hother : other.Sound) :
    e ∈ (g.merge other).edges ↔ e ∈ g.edges ∨ e.id ∉ g.edgeIds ∧ e ∈ other.edges := by
  have hmem {g : MemoryGraph} (hg : g.Sound) : e ∈ g.edges ↔ g.findEdge? e.id = some e := by
    rw [hg.wellFormed.findEdge?_eq_some, and_iff_left rfl]
  have hnew : e.id ∉ g.edgeIds ↔ g.findEdge? e.id = none := by
    rw [← hasEdge_iff, hasEdge, Option.not_isSome_iff_eq_none]
  rw [hmem (hg.merge hother), findEdge?_merge, Option.or_eq_some_iff, hmem hg, hmem hother, hnew]

theorem atMost_depths_merge (hother : other.Sound) {n : Int} :
    (g.merge other).depths.AtMost id n ↔ g.depths.AtMost id n ∨ other.depths.AtMost id n := by
  rw [(records_merge g hother.networkOnce (List.Subset.refl other.edges)).depths,
    and_iff_right_of_imp (hother.depthsKnown id n)]

theorem atMost_network_merge (hother : other.Sound) {n : Int} :
    (g.merge other).network.AtMost id n ↔ g.network.AtMost id n ∨ other.network.AtMost id n :=
  (records_merge g hother.networkOnce (List.Subset.refl other.edges)).network id n

end Sound

theorem IsBuilt.sound (h : g.IsBuilt) : g.Sound := by
  obtain ⟨history, hg⟩ := h
  have hbuilds := history.builds_graph
  rw [hg]
  refine ⟨⟨hbuilds.wellFormed.vertices, hbuilds.wellFormed.edges, hbuilds.wellFormed.ends,
    hbuilds.wellFormed.network⟩, hbuilds.mapped, hbuilds.networkOnce, fun id n hn => ?_⟩
  obtain ⟨entry, hentry, rfl, _⟩ := (hbuilds.depths id n).mp hn
  exact (hbuilds.vertices entry.1).mpr (history.known_of_depths entry hentry)

/-! ## Joins -/

theorem Agrees.within_merge_left (h : g.Agrees same other) (hg : g.Sound) (hother : other.Sound) :
    g.Within same (g.merge other) where
  vertices _ hid := hother.mem_vertexIds_merge.mpr (.inl hid)
  annotations id key text htext := by
    rw [hother.annotation?_merge]
    -- where the other graph has a text too, it is this one
    cases htext' : other.annotation? id key with
    | none => exact htext
    | some text' => rw [h.annotation?_eq htext htext', Option.some_or]
  edges e he := ⟨e, (hg.mem_edges_merge hother).mpr (.inl he), rfl, same.refl e⟩
  depths _ _ hn := hother.atMost_depths_merge.mpr (.inl hn)
  network _ _ hn := hother.atMost_network_merge.mpr (.inl hn)

theorem Agrees.within_merge_right (h : g.Agrees same other) (hg : g.Sound) (hother : other.Sound) :
    other.Within same (g.merge other) where
  vertices _ hid := hother.mem_vertexIds_merge.mpr (.inr hid)
  annotations id key text htext := by rw [hother.annotation?_merge, htext, Option.some_or]
  edges e he := by
    by_cases hknown : e.id ∈ g.edgeIds
    · obtain ⟨e', he', hid⟩ := List.mem_map.mp hknown
      exact ⟨e', (hg.mem_edges_merge hother).mpr (.inl he'), hid.symm,
        same.symm (h.edges e' he' e he hid)⟩
    · exact ⟨e, (hg.mem_edges_merge hother).mpr (.inr ⟨hknown, he⟩), rfl, same.refl e⟩
  depths _ _ hn := hother.atMost_depths_merge.mpr (.inr hn)
  network _ _ hn := hother.atMost_network_merge.mpr (.inr hn)

theorem Within.merge (hg : g.Sound) (hother : other.Sound) (h : g.Within same g')
    (h' : other.Within same g') : (g.merge other).Within same g' where
  vertices id hid := (hother.mem_vertexIds_merge.mp hid).elim (h.vertices id) (h'.vertices id)
  annotations id key text htext := by
    rw [hother.annotation?_merge, Option.or_eq_some_iff] at htext
    exact htext.elim (h'.annotations id key text) fun htext => h.annotations id key text htext.2
  edges e he := ((hg.mem_edges_merge hother).mp he).elim (h.edges e) fun he => h'.edges e he.2
  depths id n hn := (hother.atMost_depths_merge.mp hn).elim (h.depths id n) (h'.depths id n)
  network id n hn := (hother.atMost_network_merge.mp hn).elim (h.network id n) (h'.network id n)

/-- The merge is contained in just those graphs that contain both. -/
theorem Agrees.merge_within_iff (h : g.Agrees same other) (hg : g.Sound) (hother : other.Sound) :
    (g.merge other).Within same g' ↔ g.Within same g' ∧ other.Within same g' :=
  ⟨fun hwithin => ⟨(h.within_merge_left hg hother).trans hwithin,
    (h.within_merge_right hg hother).trans hwithin⟩, fun hboth => hboth.1.merge hg hother hboth.2⟩

/-- A graph that agrees with two others agrees with their merge. -/
theorem Agrees.merge (hg : g.Sound) (hother : other.Sound) (h : g''.Agrees same g)
    (h' : g''.Agrees same other) : g''.Agrees same (g.merge other) where
  edges e he e' he' hid := ((hg.mem_edges_merge hother).mp he').elim
    (fun he' => h.edges e he e' he' hid) fun he' => h'.edges e he e' he'.2 hid
  annotations v hv v' hv' hid key text text' htext htext' := by
    have hmerged : (g.merge other).annotation? v'.id key = some text' := by
      rw [annotation?, (hg.merge hother).wellFormed.findVertex?_eq_some.mpr ⟨hv', rfl⟩]
      exact htext'
    rw [hother.annotation?_merge, Option.or_eq_some_iff] at hmerged
    have hfrom {g' : MemoryGraph} (hg' : g''.Agrees same g')
        (hmerged : g'.annotation? v'.id key = some text') : text = text' := by
      obtain ⟨w, hw, hget⟩ := Option.bind_eq_some_iff.mp hmerged
      have hfound : w.id = v'.id := by simpa using List.find?_some hw
      exact hg'.annotations v hv w (List.mem_of_find?_eq_some hw) (hid.trans hfound.symm) key text
        text' htext hget
    exact hmerged.elim (hfrom h') fun hmerged => hfrom h hmerged.2

/-! ## Merging once more -/

/-- Annotations that the vertex has already are laid over it without a trace. -/
theorem Sound.insertVertex_of_known (hg : g.Sound) (hknown : v.id ∈ g.vertexIds)
    (hsame : ∀ entry ∈ v.annotations.entries, g.annotation? v.id entry.1 = some entry.2) :
    g.insertVertex v = g := by
  have hplace (w : Vertex) (hw : w ∈ g.vertices) :
      (if w.id = v.id then ⟨w.id, w.annotations.merge v.annotations⟩ else w) = w := by
    split
    · next hid =>
      have hmerge : w.annotations.merge v.annotations = w.annotations := by
        refine Annotations.foldl_insert_of_get? (hg.mapped w hw) fun entry hentry => ?_
        have hget := hsame entry hentry
        rwa [annotation?, hg.wellFormed.findVertex?_eq_some.mpr ⟨hw, hid⟩] at hget
      rw [hmerge]
    · rfl
  rw [insertVertex, if_pos (hasVertex_iff.mpr hknown), List.map_congr_left hplace, List.map_id']

theorem Sound.addVertex_of_known (hg : g.Sound) (hknown : v.id ∈ g.vertexIds)
    (hsame : ∀ entry ∈ v.annotations.entries, g.annotation? v.id entry.1 = some entry.2)
    (hdepth : ∀ n ∈ depth, g.depths.AtMost v.id n) : g.addVertex v depth = g := by
  have hinsert := hg.insertVertex_of_known hknown hsame
  cases depth with
  | none => exact hinsert
  | some n => simp only [addVertex, hinsert, Depths.lower_of_atMost (hdepth n rfl)]

theorem foldl_of_fixed {α : Type} {f : MemoryGraph → α → MemoryGraph} {as : List α}
    (h : ∀ a ∈ as, f g a = g) : as.foldl f g = g :=
  List.foldlRecOn (motive := (· = g)) as f rfl fun _ hg' a ha => hg' ▸ h a ha

/-- A graph that is contained already brings nothing, but perhaps a root. -/
theorem Within.merge_eq (h : other.Within same g) (hg : g.Sound) (hother : other.Sound) :
    g.merge other = { g with root := g.root.or other.root } := by
  have hknown (v : Vertex) (hv : v ∈ other.vertices) : v.id ∈ g.vertexIds :=
    h.vertices v.id (List.mem_map_of_mem hv)
  have hsame (v : Vertex) (hv : v ∈ other.vertices) (entry : String × String)
      (hentry : entry ∈ v.annotations.entries) : g.annotation? v.id entry.1 = some entry.2 := by
    apply h.annotations
    rw [annotation?, hother.wellFormed.findVertex?_eq_some.mpr ⟨hv, rfl⟩]
    exact (hother.mapped v hv).get?_eq_some_iff.mpr hentry
  -- each of the three loops leaves the graph as it is, step by step
  have hvertices : other.vertices.foldl (fun g v => g.addVertex v (other.depth? v.id)) g = g :=
    foldl_of_fixed fun v hv => hg.addVertex_of_known (hknown v hv) (hsame v hv) fun n hn =>
      h.depths v.id n ⟨n, le_rfl, hn⟩
  have hedges : other.edges.foldl addEdge g = g := foldl_of_fixed fun e he => by
    obtain ⟨e', he', hid, _⟩ := h.edges e he
    exact if_pos (hasEdge_iff.mpr (List.mem_map.mpr ⟨e', he', hid.symm⟩))
  have hnetwork : other.network.entries.foldl (fun g entry =>
      g.putNetwork ((other.findVertex? entry.1).getD ⟨entry.1, .empty⟩) entry.2) g = g :=
    foldl_of_fixed fun entry hentry => by
      -- what is put among the network vertices is a vertex already
      obtain ⟨v, hv, hid⟩ := List.mem_map.mp (hother.wellFormed.network entry hentry)
      rw [hother.wellFormed.findVertex?_eq_some.mpr ⟨hv, hid⟩, Option.getD_some, putNetwork,
        hg.addVertex_of_known (hknown v hv) (hsame v hv) (by simp), Depths.lower_of_atMost]
      exact h.network v.id entry.2 ⟨entry.2, le_rfl, by
        rw [hid]
        exact (lookup_eq_some_iff_mem hother.networkOnce).mpr hentry⟩
  rw [MemoryGraph.merge, hvertices, hedges, hnetwork]

theorem root_addVertex (g : MemoryGraph) (v : Vertex) (depth : Option Int) :
    (g.addVertex v depth).root = g.root := by
  have hinsert : (g.insertVertex v).root = g.root := by
    unfold insertVertex
    split <;> rfl
  cases depth <;> exact hinsert

theorem root_putNetwork (g : MemoryGraph) (v : Vertex) (depth : Int) :
    (g.putNetwork v depth).root = g.root :=
  root_addVertex g v none

theorem root_addEdge (g : MemoryGraph) (e : Edge) : (g.addEdge e).root = g.root := by
  have hend (g : MemoryGraph) (id : String) : (g.addEndpoint id).root = g.root := by
    unfold addEndpoint
    split
    · rfl
    · exact root_addVertex ..
  unfold addEdge
  split
  · rfl
  · exact (hend _ _).trans (hend _ _)

theorem root_merge (g other : MemoryGraph) : (g.merge other).root = g.root.or other.root := by
  have hfoldl {α : Type} {f : MemoryGraph → α → MemoryGraph} (hf : ∀ g a, (f g a).root = g.root)
      (as : List α) (g : MemoryGraph) : (as.foldl f g).root = g.root :=
    List.foldlRecOn (motive := (·.root = g.root)) as f rfl fun g' hg' a _ => (hf g' a).trans hg'
  have hvertices := hfoldl (fun g v => root_addVertex g v (other.depth? v.id)) other.vertices g
  refine congrArg (·.or other.root) (Eq.trans (Eq.trans (hfoldl ?_ other.network.entries _)
    (hfoldl root_addEdge other.edges _)) hvertices)
  exact fun g entry => root_putNetwork g _ entry.2

/-- A part of the merge is merged once more without any change. -/
theorem merge_merge_of_within (hg : g.Sound) (hg' : g'.Sound) (hother : other.Sound)
    (h : other.Within same (g.merge g')) (hroot : other.root = g.root ∨ other.root = g'.root) :
    (g.merge g').merge other = g.merge g' := by
  have hsame : (g.merge g').root.or other.root = (g.merge g').root := by
    rw [root_merge]
    rcases hroot with hroot | hroot <;> rw [hroot] <;> cases g.root <;> cases g'.root <;> rfl
  rw [h.merge_eq (hg.merge hg') hother, hsame]

/-! ## Any graphs -/

/-- Merging graphs that agree gives the least graph that contains both. The order and the grouping in
which three graphs are merged do not matter, and merging one of them again changes nothing at all. -/
theorem merge_isLeast {A B C : MemoryGraph} (same : Setoid Edge) (hA : A.IsBuilt) (hB : B.IsBuilt)
    (hC : C.IsBuilt) (hAB : A.Agrees same B) (hAC : A.Agrees same C) (hBC : B.Agrees same C) :
    (A.merge B).SameContents same (B.merge A) ∧
      ((A.merge B).merge C).SameContents same (A.merge (B.merge C)) ∧
      (A.merge B).merge A = A.merge B ∧ (A.merge B).merge B = A.merge B ∧
      ∀ G, (A.merge B).Within same G ↔ A.Within same G ∧ B.Within same G := by
  have hA := hA.sound
  have hB := hB.sound
  have hC := hC.sound
  have hleft := hAB.within_merge_left hA hB
  have hright := hAB.within_merge_right hA hB
  refine ⟨?_, ?_, merge_merge_of_within hA hB hA hleft (.inl rfl),
    merge_merge_of_within hA hB hB hright (.inr rfl), fun G => hAB.merge_within_iff hA hB⟩
  · have hleft' := hAB.symm.within_merge_left hB hA
    have hright' := hAB.symm.within_merge_right hB hA
    exact (hright'.merge hA hB hleft').antisymm (hright.merge hB hA hleft)
  · have habc : (A.merge B).Agrees same C := (hAC.symm.merge hA hB hBC.symm).symm
    have habc' : A.Agrees same (B.merge C) := hAB.merge hB hC hAC
    have hbc := hB.merge hC
    -- each of the three is below both merges
    have hin := habc.within_merge_left (hA.merge hB) hC
    have hout := habc'.within_merge_right hA hbc
    refine (((habc'.within_merge_left hA hbc).merge hA hB
      ((hBC.within_merge_left hB hC).trans hout)).merge (hA.merge hB) hC
        ((hBC.within_merge_right hB hC).trans hout)).antisymm ?_
    exact (hleft.trans hin).merge hA hbc
      ((hright.trans hin).merge hB hC (habc.within_merge_right (hA.merge hB) hC))

end MemoryGraph

/-! ## Three parts of a graph -/

namespace History

/-- A process and, without annotations, the file that it reads. -/
def reader : History :=
  .addEdge (.addVertex (.start none) ⟨"p", .ofList [("name", "cat")]⟩ (by decide) (some 0))
    ⟨"e", "p", "f", .empty⟩

/-- The file, deeper down, and another annotation of the process. -/
def file : History :=
  .addVertex (.addVertex (.start none) ⟨"f", .ofList [("path", "a.txt")]⟩ (by decide) (some 2))
    ⟨"p", .ofList [("pid", "10")]⟩ (by decide) none

/-- The same edge, with the file to be resolved elsewhere. -/
def remoteFile : History :=
  .putNetwork (.addEdge (.addVertex (.start none) ⟨"f", .empty⟩ (by decide) (some 1))
    ⟨"e", "p", "f", .empty⟩) ⟨"f", .ofList [("path", "a.txt")]⟩ (by decide) 3

end History

open History in
theorem MemoryGraph.merge_isLeast_parts :
    ((reader.graph.merge file.graph).merge remoteFile.graph).SameContents ⟨Eq, eq_equivalence⟩
        (reader.graph.merge (file.graph.merge remoteFile.graph)) ∧
      (reader.graph.merge file.graph).merge reader.graph = reader.graph.merge file.graph ∧
      (reader.graph.merge file.graph).annotation? "p" "pid" = some "10" ∧
      (reader.graph.merge file.graph).annotation? "p" "name" = some "cat" := by
  have hbuilt (h : History) : h.graph.IsBuilt := ⟨h, rfl⟩
  obtain ⟨_, hassoc, hagain, _⟩ := merge_isLeast ⟨Eq, eq_equivalence⟩ (hbuilt reader) (hbuilt file)
    (hbuilt remoteFile) (.of_entries (by decide) (by decide)) (.of_entries (by decide) (by decide))
    (.of_entries (by decide) (by decide))
  exact ⟨hassoc, hagain, by decide, by decide⟩

end Provenance
