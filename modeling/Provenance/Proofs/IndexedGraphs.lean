-- SUMMARY: A graph kept in a directed graph with tables of indices stays in step with them.
import Provenance.Proofs.Histories
import Provenance.Proofs.DirectedGraphs

/-!
# Graphs kept under indices

The vertices and edges of a graph may be kept in a directed graph, with two tables beside it that lead
from ids to indices. The tables and the directed graph stay in step through all operations, so what is
answered by way of indices is what was added, and none of the look-ups fails.
-/
namespace Provenance

open DirectedGraph

/-! ## Graphs with tables of indices -/

/-- The texts are the same for the same keys, in whatever order. -/
def Annotations.same (a b : Annotations) : Bool :=
  decide (a.entries.length = b.entries.length) &&
    a.entries.all fun entry => b.get? entry.1 = some entry.2

/-- A directed graph, the indices of vertices and of edges by their ids, and the least depths. -/
structure IndexedGraph (D : Type) where
  store : D
  nodeOf : List (String × Nat)
  linkOf : List (String × Nat)
  depths : Depths
  network : Depths

namespace IndexedGraph

variable {D : Type} [DirectedGraph D]

def empty : IndexedGraph D := ⟨DirectedGraph.empty, [], [], .empty, .empty⟩

/-- Nothing is written for a known vertex whose annotations bring nothing new. -/
def insertVertex (x : IndexedGraph D) (v : Vertex) : Option (IndexedGraph D) :=
  match x.nodeOf.lookup v.id with
  | some i => do
    let known ← node? x.store i
    if v.annotations.entries.isEmpty || v.annotations.same known.annotations then return x
    return { x with store := setNode x.store i ⟨v.id, known.annotations.merge v.annotations⟩ }
  | none =>
    let added := addNode x.store v
    return { x with store := added.1, nodeOf := x.nodeOf ++ [(v.id, added.2)] }

def addVertex (x : IndexedGraph D) (v : Vertex) (depth : Option Int) : Option (IndexedGraph D) := do
  let x ← x.insertVertex v
  match depth with
  | none => return x
  | some depth => return { x with depths := x.depths.lower v.id depth }

def addEndpoint (x : IndexedGraph D) (id : String) : Option (IndexedGraph D) :=
  if (x.nodeOf.lookup id).isSome then some x else x.addVertex ⟨id, .empty⟩ none

def addEdge (x : IndexedGraph D) (e : Edge) : Option (IndexedGraph D) :=
  if (x.linkOf.lookup e.id).isSome then some x
  else do
    let x ← x.addEndpoint e.child
    let x ← x.addEndpoint e.parent
    let added := addLink x.store (← x.nodeOf.lookup e.child) (← x.nodeOf.lookup e.parent) e
    return { x with store := added.1, linkOf := x.linkOf ++ [(e.id, added.2)] }

def putNetwork (x : IndexedGraph D) (v : Vertex) (depth : Int) : Option (IndexedGraph D) := do
  let x ← x.addVertex v none
  return { x with network := x.network.lower v.id depth }

def vertex? (x : IndexedGraph D) (id : String) : Option Vertex := do
  node? x.store (← x.nodeOf.lookup id)

def vertices? (x : IndexedGraph D) : Option (List Vertex) :=
  x.nodeOf.mapM fun entry => node? x.store entry.2

def edges? (x : IndexedGraph D) : Option (List Edge) :=
  x.linkOf.mapM fun entry => (link? x.store entry.2).map (·.edge)

def merge (x other : IndexedGraph D) : Option (IndexedGraph D) := do
  let x ← (← other.vertices?).foldlM (fun x v => x.addVertex v (other.depths.get? v.id)) x
  let x ← (← other.edges?).foldlM addEdge x
  other.network.entries.foldlM (fun x entry => do x.putNetwork (← other.vertex? entry.1) entry.2) x

def parents (x : IndexedGraph D) (id : String) : Option (List Vertex) := do
  (successors x.store (← x.nodeOf.lookup id)).eraseDups.mapM (node? x.store)

def children (x : IndexedGraph D) (id : String) : Option (List Vertex) := do
  (predecessors x.store (← x.nodeOf.lookup id)).eraseDups.mapM (node? x.store)

def edgesBetween (x : IndexedGraph D) (child parent : String) : List Edge :=
  match x.nodeOf.lookup child, x.nodeOf.lookup parent with
  | some i, some j => ((outLinks x.store i).filter (·.target = j)).map (·.edge)
  | _, _ => []

/-- What the graph answers. -/
def view? (x : IndexedGraph D) : Option GraphView := do
  return {
    vertices := ← x.vertices?
    edges := ← x.edges?
    vertexCount := nodeCount x.store
    edgeCount := linkCount x.store
    depth? := x.depths.get?
    network := x.network.entries
    parents := x.parents
    children := x.children
    edgesBetween := x.edgesBetween }

end IndexedGraph

/-- The graph that is built over a directed graph. -/
def History.indexed {D : Type} [DirectedGraph D] : History → Option (IndexedGraph D)
  | start _ => some .empty
  | addVertex h v _ depth => do (← h.indexed).addVertex v depth
  | addEdge h e => do (← h.indexed).addEdge e
  | putNetwork h v _ depth => do (← h.indexed).putNetwork v depth
  | merge h other => do (← h.indexed).merge (← other.indexed)

/-! ## Tables of indices -/

theorem mem_of_lookup {β : Type} {entries : List (String × β)} {key : String} {x : β}
    (h : entries.lookup key = some x) : (key, x) ∈ entries := by
  obtain ⟨_, _, rfl, _⟩ := List.lookup_eq_some_iff.mp h
  simp

theorem mapM_eq_some {α β : Type} {f : α → Option β} {as : List α} {bs : List β}
    (h : as.map f = bs.map some) : as.mapM f = some bs := by
  induction as generalizing bs with
  | nil =>
    obtain rfl : bs = [] := by simpa using h
    rfl
  | cons a as ih =>
    cases bs with
    | nil => simp at h
    | cons b bs =>
      obtain ⟨hfirst, hrest⟩ := List.cons.inj h
      rw [List.mapM_cons, hfirst, ih hrest]
      rfl

theorem exists_map_some {α β : Type} {f : α → Option β} {as : List α}
    (h : ∀ a ∈ as, ∃ b, f a = some b) : ∃ bs : List β, as.map f = bs.map some := by
  refine ⟨as.filterMap f, ?_⟩
  induction as with
  | nil => rfl
  | cons a as ih =>
    obtain ⟨b, hb⟩ := h a List.mem_cons_self
    rw [List.map_cons, List.filterMap_cons_some hb, List.map_cons, hb,
      ih fun a ha => h a (.tail _ ha)]

/-- What is found at different places is different, if each place can be told from what is found. -/
theorem nodup_of_places {α β : Type} {f : α → Option β} {as : List α} {bs : List β}
    (place? : β → Option α) (h : as.map f = bs.map some) (has : as.Nodup)
    (hplace : ∀ a ∈ as, ∀ b, f a = some b → place? b = some a) : (bs.map place?).Nodup := by
  have hback : bs.map place? = as.map some := by
    have hbind := congrArg (List.map (·.bind place?)) h
    rw [List.map_map, List.map_map] at hbind
    refine Eq.trans hbind.symm (List.map_congr_left fun a ha => ?_)
    obtain ⟨b, _, hb⟩ := List.mem_map.mp (h ▸ List.mem_map_of_mem (f := f) ha)
    simp [← hb, hplace a ha b hb.symm]
  rw [hback]
  exact has.map (Option.some_injective α)

/-- The table leads from the id of each item, and from no other, to the index at which it is kept. -/
structure Indexes {β γ : Type} (index : List (String × Nat)) (at? : Nat → Option γ) (items : List β)
    (idOf : β → String) (kept : β → γ) : Prop where
  entries : index.map (fun entry => (entry.1, at? entry.2)) =
    items.map fun b => (idOf b, some (kept b))
  once : (index.map (·.2)).Nodup

namespace Indexes

variable {β γ : Type} {index : List (String × Nat)} {at? at?' : Nat → Option γ} {items : List β}
  {idOf : β → String} {kept kept' : β → γ} {u u' : String} {i : Nat} {b : β}

theorem keys (h : Indexes index at? items idOf kept) : index.map (·.1) = items.map idOf := by
  simpa [Function.comp_def] using congrArg (List.map Prod.fst) h.entries

theorem lookup_isSome_iff (h : Indexes index at? items idOf kept) :
    (index.lookup u).isSome = true ↔ u ∈ items.map idOf := by
  rw [← h.keys]
  simp

theorem exists_of_mem (h : Indexes index at? items idOf kept) {entry : String × Nat}
    (hentry : entry ∈ index) : ∃ b ∈ items, idOf b = entry.1 ∧ at? entry.2 = some (kept b) := by
  have hin : (entry.1, at? entry.2) ∈ items.map fun b => (idOf b, some (kept b)) :=
    h.entries ▸ List.mem_map_of_mem (f := fun entry => (entry.1, at? entry.2)) hentry
  obtain ⟨b, hb, heq⟩ := List.mem_map.mp hin
  obtain ⟨hid, hat⟩ := Prod.ext_iff.mp heq
  exact ⟨b, hb, hid, hat.symm⟩

theorem exists_item (h : Indexes index at? items idOf kept) (hlookup : index.lookup u = some i) :
    ∃ b ∈ items, idOf b = u ∧ at? i = some (kept b) :=
  h.exists_of_mem (mem_of_lookup hlookup)

theorem exists_index (h : Indexes index at? items idOf kept) (hids : (items.map idOf).Nodup)
    (hb : b ∈ items) : ∃ i, index.lookup (idOf b) = some i ∧ at? i = some (kept b) := by
  have hin : (idOf b, some (kept b)) ∈ index.map fun entry => (entry.1, at? entry.2) :=
    h.entries ▸ List.mem_map_of_mem (f := fun b => (idOf b, some (kept b))) hb
  obtain ⟨⟨_, i⟩, hentry, heq⟩ := List.mem_map.mp hin
  obtain ⟨rfl, hat⟩ := Prod.ext_iff.mp heq
  exact ⟨i, (lookup_eq_some_iff_mem (h.keys ▸ hids)).mpr hentry, hat⟩

theorem lookup_inj (h : Indexes index at? items idOf kept) (hu : index.lookup u = some i)
    (hu' : index.lookup u' = some i) : u = u' :=
  congrArg Prod.fst (List.inj_on_of_nodup_map h.once (mem_of_lookup hu) (mem_of_lookup hu') rfl)

/-- Nothing in the table changes with what is not in it. -/
theorem congr (h : Indexes index at? items idOf kept)
    (hat : ∀ entry ∈ index, at?' entry.2 = at? entry.2) (hkept : ∀ b ∈ items, kept' b = kept b) :
    Indexes index at?' items idOf kept' where
  entries := by
    rw [List.map_congr_left fun entry hentry => by rw [hat entry hentry], h.entries]
    exact List.map_congr_left fun b hb => by rw [hkept b hb]
  once := h.once

/-- What is kept at an index of its own can be entered. -/
theorem append (h : Indexes index at? items idOf kept) {k : Nat} (hfresh : at? k = none)
    (hat : ∀ j, at?' j = if j = k then some (kept b) else at? j) :
    Indexes (index ++ [(idOf b, k)]) at?' (items ++ [b]) idOf kept where
  entries := by
    have hold (entry : String × Nat) (hentry : entry ∈ index) : at?' entry.2 = at? entry.2 := by
      obtain ⟨_, _, _, hkept⟩ := h.exists_of_mem hentry
      have hne : entry.2 ≠ k := fun heq => by simp [← heq, hkept] at hfresh
      rw [hat, if_neg hne]
    rw [List.map_append, List.map_append, (h.congr hold fun _ _ => rfl).entries]
    simp [hat]
  once := by
    have hnew : k ∉ index.map (·.2) := by
      intro hk
      obtain ⟨entry, hentry, rfl⟩ := List.mem_map.mp hk
      obtain ⟨_, _, _, hkept⟩ := h.exists_of_mem hentry
      simp [hkept] at hfresh
    simpa using List.concat_eq_append ▸ h.once.concat hnew

/-- Items may be written anew at their indices. -/
theorem replace {at? at?' : Nat → Option β} (h : Indexes index at? items idOf fun b => b) (f : β → β)
    (hid : ∀ b, idOf (f b) = idOf b)
    (hat : ∀ entry ∈ index, at?' entry.2 = (at? entry.2).map f) :
    Indexes index at?' (items.map f) idOf fun b => b where
  entries := by
    have hentries := congrArg (List.map fun pair => (pair.1, pair.2.map f)) h.entries
    rw [List.map_map, List.map_map] at hentries
    rw [List.map_map, List.map_congr_left fun entry hentry => by rw [hat entry hentry]]
    refine Eq.trans hentries (List.map_congr_left fun b _ => ?_)
    simp [hid]
  once := h.once

/-- All items can be read by their indices. -/
theorem mapM_eq (h : Indexes index at? items idOf kept) {δ : Type} (f : γ → δ) :
    index.mapM (fun entry => (at? entry.2).map f) = some (items.map fun b => f (kept b)) := by
  apply mapM_eq_some
  have hentries := congrArg (List.map fun pair => pair.2.map f) h.entries
  simpa [Function.comp_def] using hentries

end Indexes

/-! ## Annotations that bring nothing new -/

namespace Annotations

variable {a b : Annotations}

theorem insert_of_get? (ha : a.Distinct) {key text : String} (h : a.get? key = some text) :
    a.insert key text = a := by
  have hknown : a.contains key = true := by simp [contains, h]
  have hentry (entry : String × String) (hin : entry ∈ a.entries) :
      (if entry.1 = key then (key, text) else entry) = entry := by
    split
    · next heq =>
      obtain ⟨_, text'⟩ := entry
      obtain rfl := heq
      have hsame : some text' = some text := (ha.get?_eq_some_iff.mpr hin).symm.trans h
      rw [Option.some.inj hsame]
    · rfl
  rw [insert, if_pos hknown, List.map_congr_left hentry, List.map_id']

theorem foldl_insert_of_get? (ha : a.Distinct) {entries : List (String × String)}
    (h : ∀ entry ∈ entries, a.get? entry.1 = some entry.2) :
    entries.foldl (fun a entry => a.insert entry.1 entry.2) a = a := by
  induction entries with
  | nil => rfl
  | cons entry entries ih =>
    rw [List.foldl_cons, insert_of_get? ha (h entry List.mem_cons_self)]
    exact ih fun entry hentry => h entry (.tail _ hentry)

theorem merge_of_same (ha : a.Distinct) (h : b.entries.isEmpty = true ∨ b.same a = true) :
    a.merge b = a := by
  refine foldl_insert_of_get? ha fun entry hentry => ?_
  rcases h with hempty | hsame
  · simp [List.isEmpty_iff.mp hempty] at hentry
  · simp only [same, Bool.and_eq_true, List.all_eq_true, decide_eq_true_eq] at hsame
    exact hsame.2 entry hentry

end Annotations

/-! ## Staying in step -/

/-- The link of an edge between the nodes of its ends. -/
def linkOfEdge (nodeOf : List (String × Nat)) (e : Edge) : Link :=
  ⟨(nodeOf.lookup e.child).getD 0, (nodeOf.lookup e.parent).getD 0, e⟩

/-- Nodes that are added later have no part in it. -/
theorem linkOfEdge_append {nodeOf : List (String × Nat)} {e : Edge}
    (hchild : (nodeOf.lookup e.child).isSome = true)
    (hparent : (nodeOf.lookup e.parent).isSome = true) (more : List (String × Nat)) :
    linkOfEdge (nodeOf ++ more) e = linkOfEdge nodeOf e := by
  obtain ⟨i, hi⟩ := Option.isSome_iff_exists.mp hchild
  obtain ⟨j, hj⟩ := Option.isSome_iff_exists.mp hparent
  simp [linkOfEdge, List.lookup_append, hi, hj]

namespace IndexedGraph

variable {D : Type} [DirectedGraph D]

/-- The tables lead to the vertices and edges of the graph, and the directed graph holds no others. -/
structure Represents (x : IndexedGraph D) (g : MemoryGraph) : Prop where
  wellFormed : g.WellFormed
  mapped : g.Mapped
  nodes : Indexes x.nodeOf (node? x.store) g.vertices (·.id) fun v => v
  links : Indexes x.linkOf (link? x.store) g.edges (·.id) (linkOfEdge x.nodeOf)
  linksOnly : ∀ k, (link? x.store k).isSome → k ∈ x.linkOf.map (·.2)
  nodeCount : nodeCount x.store = g.vertices.length
  linkCount : linkCount x.store = g.edges.length
  depths : x.depths = g.depths
  network : x.network = g.network

namespace Represents

variable {x y : IndexedGraph D} {g g' : MemoryGraph} {v : Vertex} {e : Edge} {id : String}

theorem lookup_isSome_iff (h : x.Represents g) :
    (x.nodeOf.lookup id).isSome = true ↔ g.hasVertex id = true := by
  rw [h.nodes.lookup_isSome_iff, MemoryGraph.hasVertex_iff, MemoryGraph.vertexIds]

theorem lookup_eq_iff (h : x.Represents g) {i : Nat} {u : String} (hi : x.nodeOf.lookup id = some i) :
    x.nodeOf.lookup u = some i ↔ u = id :=
  ⟨fun hu => h.nodes.lookup_inj hu hi, fun hu => hu ▸ hi⟩

theorem vertices?_eq (h : x.Represents g) : x.vertices? = some g.vertices := by
  simpa [vertices?] using h.nodes.mapM_eq fun v => v

theorem edges?_eq (h : x.Represents g) : x.edges? = some g.edges := by
  simpa [edges?, linkOfEdge] using h.links.mapM_eq Link.edge

theorem vertex?_eq (h : x.Represents g) : x.vertex? id = g.findVertex? id := by
  unfold vertex?
  cases hlookup : x.nodeOf.lookup id with
  | none =>
    have hunknown : ¬ (g.findVertex? id).isSome = true := fun hknown => by
      simpa [hlookup] using h.lookup_isSome_iff.mpr hknown
    rw [Option.not_isSome_iff_eq_none.mp hunknown]
    rfl
  | some i =>
    obtain ⟨v, hv, hid, hat⟩ := h.nodes.exists_item hlookup
    rw [h.wellFormed.findVertex?_eq_some.mpr ⟨hv, hid⟩]
    exact hat

theorem exists_node (h : x.Represents g) (hid : id ∈ g.vertexIds) :
    ∃ i, x.nodeOf.lookup id = some i ∧ (node? x.store i).isSome = true := by
  obtain ⟨i, hi⟩ := Option.isSome_iff_exists.mp
    (h.lookup_isSome_iff.mpr (MemoryGraph.hasVertex_iff.mpr hid))
  obtain ⟨_, _, _, hat⟩ := h.nodes.exists_item hi
  exact ⟨i, hi, by simp [hat]⟩

theorem exists_ends (h : x.Represents g) (he : e ∈ g.edges) : ∃ i j,
    x.nodeOf.lookup e.child = some i ∧ x.nodeOf.lookup e.parent = some j ∧
      linkOfEdge x.nodeOf e = ⟨i, j, e⟩ := by
  obtain ⟨hchild, hparent⟩ := h.wellFormed.ends e he
  obtain ⟨i, hi, _⟩ := h.exists_node hchild
  obtain ⟨j, hj, _⟩ := h.exists_node hparent
  exact ⟨i, j, hi, hj, by simp [linkOfEdge, hi, hj]⟩

/-- A link is that of an edge under whose id its index is found. -/
theorem link_spec (h : x.Represents g) {k i j : Nat} (hlink : link? x.store k = some ⟨i, j, e⟩) :
    e ∈ g.edges ∧ x.linkOf.lookup e.id = some k ∧ x.nodeOf.lookup e.child = some i ∧
      x.nodeOf.lookup e.parent = some j := by
  obtain ⟨entry, hentry, rfl⟩ := List.mem_map.mp (h.linksOnly k (by simp [hlink]))
  obtain ⟨e', he', hid, hkept⟩ := h.links.exists_of_mem hentry
  obtain ⟨i', j', hi, hj, heq⟩ := h.exists_ends he'
  rw [hkept, heq] at hlink
  obtain ⟨rfl, rfl, rfl⟩ := by simpa using hlink
  exact ⟨he', (lookup_eq_some_iff_mem (h.links.keys ▸ h.wellFormed.edges)).mpr (hid ▸ hentry), hi, hj⟩

theorem exists_link_iff (h : x.Represents g) {i j : Nat} :
    (∃ k, link? x.store k = some ⟨i, j, e⟩) ↔
      e ∈ g.edges ∧ x.nodeOf.lookup e.child = some i ∧ x.nodeOf.lookup e.parent = some j := by
  constructor
  · rintro ⟨k, hk⟩
    obtain ⟨he, _, hends⟩ := h.link_spec hk
    exact ⟨he, hends⟩
  · rintro ⟨he, hi, hj⟩
    obtain ⟨k, _, hk⟩ := h.links.exists_index h.wellFormed.edges he
    exact ⟨k, by simp [hk, linkOfEdge, hi, hj]⟩

/-- What is at the ends of links is what is at the ends of edges. -/
theorem answersNeighbours (h : x.Represents g) {view : GraphView}
    (hvertices : view.vertices = g.vertices) (hedges : view.edges = g.edges) {way : Way}
    {js : List Nat} (hjs : ∀ j, j ∈ js ↔
      ∃ e ∈ g.edges, e.near way = id ∧ x.nodeOf.lookup (e.far way) = some j) :
    view.AnswersNeighbours way id (js.eraseDups.mapM (node? x.store)) := by
  have hnode (j : Nat) (hj : j ∈ js.eraseDups) : ∃ v ∈ g.vertices, node? x.store j = some v ∧
      x.nodeOf.lookup v.id = some j ∧ ∃ e ∈ g.edges, e.near way = id ∧ e.far way = v.id := by
    obtain ⟨e, he, hnear, hfar⟩ := (hjs j).mp (List.mem_eraseDups.mp hj)
    obtain ⟨v, hv, hid, hat⟩ := h.nodes.exists_item hfar
    exact ⟨v, hv, hat, hid ▸ hfar, e, he, hnear, hid.symm⟩
  obtain ⟨vs, hvs⟩ := exists_map_some fun j hj => by
    obtain ⟨v, _, hat, _⟩ := hnode j hj
    exact ⟨v, hat⟩
  have hmem (v : Vertex) : v ∈ vs ↔ ∃ j ∈ js.eraseDups, node? x.store j = some v := by
    rw [← List.mem_map, hvs, List.mem_map_of_injective (Option.some_injective Vertex)]
  refine ⟨vs, mapM_eq_some hvs, List.Nodup.of_map (List.lookup · x.nodeOf) ?_, fun v => ?_⟩
  · rw [List.map_map]
    refine nodup_of_places _ hvs (Value.nodup_eraseDups js) fun j hj v hat => ?_
    obtain ⟨w, _, hat', hlookup, _⟩ := hnode j hj
    obtain rfl : w = v := Option.some.inj (hat'.symm.trans hat)
    exact hlookup
  · rw [hmem, hvertices, hedges]
    constructor
    · rintro ⟨j, hj, hat⟩
      obtain ⟨w, hw, hat', _, hedge⟩ := hnode j hj
      obtain rfl : w = v := Option.some.inj (hat'.symm.trans hat)
      exact ⟨hw, hedge⟩
    · rintro ⟨hv, e, he, hnear, hfar⟩
      obtain ⟨j, hlookup, hat⟩ := h.nodes.exists_index h.wellFormed.vertices hv
      exact ⟨j, List.mem_eraseDups.mpr ((hjs j).mpr ⟨e, he, hnear, hfar ▸ hlookup⟩), hat⟩

theorem foldlM {α : Type} {f : IndexedGraph D → α → Option (IndexedGraph D)}
    {f' : MemoryGraph → α → MemoryGraph} {as : List α}
    (hf : ∀ a ∈ as, ∀ (x : IndexedGraph D) g, x.Represents g →
      ∃ x', f x a = some x' ∧ x'.Represents (f' g a)) (h : x.Represents g) :
    ∃ x', as.foldlM f x = some x' ∧ x'.Represents (as.foldl f' g) := by
  induction as generalizing x g with
  | nil => exact ⟨x, rfl, h⟩
  | cons a as ih =>
    obtain ⟨x', hfirst, hx'⟩ := hf a List.mem_cons_self x g h
    obtain ⟨x'', hrest, hx''⟩ := ih (fun b hb => hf b (.tail _ hb)) hx'
    exact ⟨x'', by simp [hfirst, hrest], hx''⟩

theorem insertVertex_known {i : Nat} {w : Vertex} (hknown : x.nodeOf.lookup v.id = some i)
    (hat : node? x.store i = some w) : x.insertVertex v =
      some (if v.annotations.entries.isEmpty || v.annotations.same w.annotations then x
        else { x with store := setNode x.store i ⟨v.id, w.annotations.merge v.annotations⟩ }) := by
  simp only [IndexedGraph.insertVertex, hknown, hat, Option.bind_eq_bind, Option.bind_some]
  split <;> rfl

variable [LawfulDirectedGraph D]

theorem empty (maxDepth : Option Int) :
    (IndexedGraph.empty : IndexedGraph D).Represents (.empty maxDepth) where
  wellFormed := MemoryGraph.wellFormed_empty maxDepth
  mapped := by simp [MemoryGraph.Mapped, MemoryGraph.empty]
  nodes := ⟨rfl, List.nodup_nil⟩
  links := ⟨rfl, List.nodup_nil⟩
  linksOnly k hk := by simp [IndexedGraph.empty, LawfulDirectedGraph.link?_empty] at hk
  nodeCount := LawfulDirectedGraph.nodeCount_empty
  linkCount := LawfulDirectedGraph.linkCount_empty
  depths := rfl
  network := rfl

/-- A new vertex gets an index of its own. -/
theorem insertNew (h : x.Represents g) (hv : v.annotations.Distinct)
    (hnew : x.nodeOf.lookup v.id = none) :
    ∃ x', x.insertVertex v = some x' ∧ x'.Represents (g.insertVertex v) := by
  have hunknown : ¬ g.hasVertex v.id = true := fun hknown => by
    simpa [hnew] using h.lookup_isSome_iff.mpr hknown
  have hinsert : g.insertVertex v = { g with vertices := g.vertices ++ [v] } := if_neg hunknown
  have hwell := hinsert ▸ h.wellFormed.insertVertex (v := v)
  have hmapped := hinsert ▸ h.mapped.insertVertex hv
  refine ⟨_, by rw [IndexedGraph.insertVertex, hnew]; rfl, ?_⟩
  rw [hinsert]
  refine ⟨hwell, hmapped, ?_, ?_, fun k hk => ?_, ?_, ?_, h.depths, h.network⟩
  · exact h.nodes.append (LawfulDirectedGraph.node?_fresh x.store v)
      (LawfulDirectedGraph.node?_addNode x.store v)
  · refine h.links.congr (fun entry _ => LawfulDirectedGraph.link?_addNode x.store v entry.2)
      fun e he => ?_
    obtain ⟨hchild, hparent⟩ := h.wellFormed.ends e he
    exact linkOfEdge_append (h.lookup_isSome_iff.mpr (MemoryGraph.hasVertex_iff.mpr hchild))
      (h.lookup_isSome_iff.mpr (MemoryGraph.hasVertex_iff.mpr hparent)) _
  · exact h.linksOnly k (by rwa [LawfulDirectedGraph.link?_addNode] at hk)
  · rw [LawfulDirectedGraph.nodeCount_addNode, h.nodeCount, List.length_append]
    rfl
  · rw [LawfulDirectedGraph.linkCount_addNode, h.linkCount]

/-- A known vertex stays at its index, whether it is written anew or not. -/
theorem insertKnown (h : x.Represents g) (hv : v.annotations.Distinct) {i : Nat}
    (hknown : x.nodeOf.lookup v.id = some i) :
    ∃ x', x.insertVertex v = some x' ∧ x'.Represents (g.insertVertex v) := by
  obtain ⟨w, hw, hid, hat⟩ := h.nodes.exists_item hknown
  let replace (u : Vertex) : Vertex :=
    if u.id = v.id then ⟨u.id, u.annotations.merge v.annotations⟩ else u
  have hinsert : g.insertVertex v = { g with vertices := g.vertices.map replace } :=
    if_pos (h.lookup_isSome_iff.mp (by simp [hknown]))
  have hwell := hinsert ▸ h.wellFormed.insertVertex (v := v)
  have hmapped := hinsert ▸ h.mapped.insertVertex hv
  -- no other vertex than the known one has the id
  have hsame (u : Vertex) (hu : u ∈ g.vertices) (huid : u.id = v.id) : u = w :=
    List.inj_on_of_nodup_map h.wellFormed.vertices hu hw (huid.trans hid.symm)
  rw [insertVertex_known hknown hat, hinsert]
  refine ⟨_, rfl, ?_⟩
  split
  · next hnothing =>
    have hmerge : w.annotations.merge v.annotations = w.annotations :=
      Annotations.merge_of_same (h.mapped w hw) (by simpa using hnothing)
    have hreplace : g.vertices.map replace = g.vertices := by
      refine (List.map_congr_left fun u hu => ?_).trans (List.map_id g.vertices)
      by_cases huid : u.id = v.id
      · obtain rfl := hsame u hu huid
        simp [replace, hmerge]
      · simp [replace, huid]
    rw [hreplace]
    exact h
  · have hsome : (node? x.store i).isSome = true := by simp [hat]
    have hkeys : (x.nodeOf.map (·.1)).Nodup := h.nodes.keys ▸ h.wellFormed.vertices
    refine ⟨hwell, hmapped, h.nodes.replace replace (fun u => ?_) fun entry hentry => ?_,
      h.links.congr (fun entry _ => ?_) fun _ _ => rfl, fun k hk => h.linksOnly k ?_, ?_, ?_,
      h.depths, h.network⟩
    · by_cases huid : u.id = v.id <;> simp [replace, huid]
    · rw [LawfulDirectedGraph.node?_setNode _ _ _ _ hsome]
      obtain ⟨u, _, huid, hkept⟩ := h.nodes.exists_of_mem hentry
      by_cases hi : entry.2 = i
      · rw [if_pos hi, hi, hat]
        simp [replace, hid]
      · have hne : u.id ≠ v.id := fun heq => hi (congrArg Prod.snd
          (List.inj_on_of_nodup_map hkeys hentry (mem_of_lookup hknown) (huid.symm.trans heq)))
        rw [if_neg hi, hkept]
        simp [replace, hne]
    · exact LawfulDirectedGraph.link?_setNode _ _ _ _ hsome
    · rwa [LawfulDirectedGraph.link?_setNode _ _ _ _ hsome] at hk
    · rw [LawfulDirectedGraph.nodeCount_setNode _ _ _ hsome, h.nodeCount, List.length_map]
    · rw [LawfulDirectedGraph.linkCount_setNode _ _ _ hsome, h.linkCount]

theorem insertVertex (h : x.Represents g) (hv : v.annotations.Distinct) :
    ∃ x', x.insertVertex v = some x' ∧ x'.Represents (g.insertVertex v) := by
  cases hlookup : x.nodeOf.lookup v.id with
  | none => exact h.insertNew hv hlookup
  | some i => exact h.insertKnown hv hlookup

theorem addVertex (h : x.Represents g) (hv : v.annotations.Distinct) (depth : Option Int) :
    ∃ x', x.addVertex v depth = some x' ∧ x'.Represents (g.addVertex v depth) := by
  obtain ⟨x', hinsert, hx'⟩ := h.insertVertex hv
  cases depth with
  | none => exact ⟨x', by simp [IndexedGraph.addVertex, hinsert], hx'⟩
  | some depth =>
    refine ⟨{ x' with depths := x'.depths.lower v.id depth },
      by simp [IndexedGraph.addVertex, hinsert], ?_⟩
    exact { hx' with
      wellFormed := (MemoryGraph.adds_addVertex g v (some depth)).wellFormed h.wellFormed
      mapped := h.mapped.addVertex hv (some depth)
      depths := congrArg (·.lower v.id depth) hx'.depths }

theorem addEndpoint (h : x.Represents g) (id : String) :
    ∃ x', x.addEndpoint id = some x' ∧ x'.Represents (g.addEndpoint id) := by
  by_cases hknown : g.hasVertex id = true
  · refine ⟨x, if_pos (h.lookup_isSome_iff.mpr hknown), ?_⟩
    rwa [MemoryGraph.addEndpoint_of_known hknown]
  · rw [IndexedGraph.addEndpoint, if_neg (h.lookup_isSome_iff.not.mpr hknown),
      MemoryGraph.addEndpoint, if_neg hknown]
    exact h.addVertex Annotations.distinct_empty none

/-- A new edge between known vertices gets an index of its own. -/
theorem addLink (h : x.Represents g) (hchild : g.hasVertex e.child = true)
    (hparent : g.hasVertex e.parent = true) (hnew : ¬ g.hasEdge e.id = true) :
    ∃ i j, x.nodeOf.lookup e.child = some i ∧ x.nodeOf.lookup e.parent = some j ∧
      { x with
        store := (DirectedGraph.addLink x.store i j e).1
        linkOf := x.linkOf ++ [(e.id, (DirectedGraph.addLink x.store i j e).2)] }.Represents
          { g with edges := g.edges ++ [e] } := by
  obtain ⟨i, hi, hsource⟩ := h.exists_node (MemoryGraph.hasVertex_iff.mp hchild)
  obtain ⟨j, hj, htarget⟩ := h.exists_node (MemoryGraph.hasVertex_iff.mp hparent)
  have hadded : g.addEdge e = { g with edges := g.edges ++ [e] } := by
    rw [MemoryGraph.addEdge, if_neg hnew, MemoryGraph.addEndpoint_of_known hchild,
      MemoryGraph.addEndpoint_of_known hparent]
  have hlink := fun k => LawfulDirectedGraph.link?_addLink x.store i j e k hsource htarget
  refine ⟨i, j, hi, hj, ?_⟩
  refine ⟨hadded ▸ (MemoryGraph.adds_addEdge_ends g e).wellFormed h.wellFormed,
    hadded ▸ h.mapped.addEdge e, h.nodes.congr (fun entry _ => ?_) fun _ _ => rfl,
    h.links.append (LawfulDirectedGraph.link?_fresh x.store i j e) fun k => ?_, fun k hk => ?_, ?_,
    ?_, h.depths, h.network⟩
  · exact LawfulDirectedGraph.node?_addLink _ _ _ _ _ hsource htarget
  · rw [hlink, linkOfEdge, hi, hj]
    rfl
  · rw [hlink] at hk
    rw [List.map_append, List.mem_append]
    by_cases hnewest : k = (DirectedGraph.addLink x.store i j e).2
    · exact .inr (by simp [hnewest])
    · exact .inl (h.linksOnly k (by rwa [if_neg hnewest] at hk))
  · rw [LawfulDirectedGraph.nodeCount_addLink _ _ _ _ hsource htarget, h.nodeCount]
  · rw [LawfulDirectedGraph.linkCount_addLink _ _ _ _ hsource htarget, h.linkCount,
      List.length_append]
    rfl

theorem addEdge (h : x.Represents g) (e : Edge) :
    ∃ x', x.addEdge e = some x' ∧ x'.Represents (g.addEdge e) := by
  have hknown : (x.linkOf.lookup e.id).isSome = true ↔ g.hasEdge e.id = true := by
    rw [h.links.lookup_isSome_iff, MemoryGraph.hasEdge_iff, MemoryGraph.edgeIds]
  by_cases hedge : g.hasEdge e.id = true
  · refine ⟨x, if_pos (hknown.mpr hedge), ?_⟩
    rwa [MemoryGraph.addEdge, if_pos hedge]
  · obtain ⟨x₁, hx₁, hrep₁⟩ := h.addEndpoint e.child
    obtain ⟨x₂, hx₂, hrep₂⟩ := hrep₁.addEndpoint e.parent
    have hends := (MemoryGraph.adds_addEndpoint g e.child).trans
      (MemoryGraph.adds_addEndpoint (g.addEndpoint e.child) e.parent)
    have hedges : ((g.addEndpoint e.child).addEndpoint e.parent).edges = g.edges := by simp
    have hnew : ¬ ((g.addEndpoint e.child).addEndpoint e.parent).hasEdge e.id = true := by
      rwa [MemoryGraph.hasEdge, MemoryGraph.findEdge?, hedges]
    obtain ⟨i, j, hi, hj, hrep⟩ := hrep₂.addLink
      (MemoryGraph.hasVertex_iff.mpr ((hends.vertices _).mpr (.inr (.inl rfl))))
      (MemoryGraph.hasVertex_iff.mpr ((hends.vertices _).mpr (.inr (.inr rfl)))) hnew
    rw [MemoryGraph.addEdge, if_neg hedge]
    refine ⟨_, ?_, hrep⟩
    simp [IndexedGraph.addEdge, hknown, hedge, hx₁, hx₂, hi, hj]

theorem putNetwork (h : x.Represents g) (hv : v.annotations.Distinct) (depth : Int) :
    ∃ x', x.putNetwork v depth = some x' ∧ x'.Represents (g.putNetwork v depth) := by
  obtain ⟨x', hadd, hx'⟩ := h.addVertex hv none
  refine ⟨{ x' with network := x'.network.lower v.id depth },
    by simp [IndexedGraph.putNetwork, hadd], ?_⟩
  exact { hx' with
    wellFormed := (MemoryGraph.adds_putNetwork g v depth).wellFormed h.wellFormed
    mapped := h.mapped.addVertex hv none
    network := congrArg (·.lower v.id depth) hx'.network }

/-- A vertex to be resolved elsewhere is one of the vertices of its graph. -/
theorem putNetworkOf (h : x.Represents g) (h' : y.Represents g') (entry : String × Int)
    (hentry : entry ∈ g'.network.entries) :
    ∃ x', (do x.putNetwork (← y.vertex? entry.1) entry.2) = some x' ∧ x'.Represents
      (g.putNetwork ((g'.findVertex? entry.1).getD ⟨entry.1, .empty⟩) entry.2) := by
  obtain ⟨v, hv, hid⟩ := List.mem_map.mp (h'.wellFormed.network entry hentry)
  have hfind : g'.findVertex? entry.1 = some v := h'.wellFormed.findVertex?_eq_some.mpr ⟨hv, hid⟩
  rw [h'.vertex?_eq, hfind]
  exact h.putNetwork (h'.mapped v hv) entry.2

theorem merge (h : x.Represents g) (h' : y.Represents g') :
    ∃ x', x.merge y = some x' ∧ x'.Represents (g.merge g') := by
  obtain ⟨x₁, hx₁, hrep₁⟩ := h.foldlM fun v hv x g hx =>
    hx.addVertex (h'.mapped v hv) (g'.depth? v.id)
  obtain ⟨x₂, hx₂, hrep₂⟩ := hrep₁.foldlM fun e (_ : e ∈ g'.edges) x g hx => hx.addEdge e
  obtain ⟨x₃, hx₃, hrep₃⟩ := hrep₂.foldlM
    fun entry (hentry : entry ∈ g'.network.entries) x g hx => hx.putNetworkOf h' entry hentry
  refine ⟨x₃, ?_, ?_⟩
  · rw [IndexedGraph.merge, h'.vertices?_eq, h'.edges?_eq, h'.depths, h'.network]
    simp only [Option.bind_eq_bind, Option.bind_some, Option.bind_eq_some_iff]
    exact ⟨x₁, hx₁, x₂, hx₂, hx₃⟩
  · exact { hrep₃ with wellFormed := { hrep₃.wellFormed with }, mapped := hrep₃.mapped }

theorem mem_successors_iff (h : x.Represents g) {i j : Nat} (hi : x.nodeOf.lookup id = some i) :
    j ∈ successors x.store i ↔ ∃ e ∈ g.edges, e.child = id ∧ x.nodeOf.lookup e.parent = some j := by
  rw [LawfulDirectedGraph.mem_successors, exists_comm]
  simp only [h.exists_link_iff, h.lookup_eq_iff hi]

theorem mem_predecessors_iff (h : x.Represents g) {i j : Nat} (hi : x.nodeOf.lookup id = some i) :
    j ∈ predecessors x.store i ↔ ∃ e ∈ g.edges, e.parent = id ∧ x.nodeOf.lookup e.child = some j := by
  rw [LawfulDirectedGraph.mem_predecessors, exists_comm]
  refine exists_congr fun e => ?_
  rw [h.exists_link_iff, h.lookup_eq_iff hi, and_comm (a := _ = some j)]

theorem answers_parents (h : x.Represents g) {view : GraphView}
    (hvertices : view.vertices = g.vertices) (hedges : view.edges = g.edges) (hid : id ∈ g.vertexIds) :
    view.AnswersNeighbours .ancestor id (x.parents id) := by
  obtain ⟨i, hi, _⟩ := h.exists_node hid
  rw [parents, hi]
  exact h.answersNeighbours hvertices hedges fun j => h.mem_successors_iff hi

theorem answers_children (h : x.Represents g) {view : GraphView}
    (hvertices : view.vertices = g.vertices) (hedges : view.edges = g.edges) (hid : id ∈ g.vertexIds) :
    view.AnswersNeighbours .descendant id (x.children id) := by
  obtain ⟨i, hi, _⟩ := h.exists_node hid
  rw [children, hi]
  exact h.answersNeighbours hvertices hedges fun j => h.mem_predecessors_iff hi

theorem nodup_outLinks (h : x.Represents g) (i : Nat) :
    ((outLinks x.store i).map (·.edge)).Nodup := by
  obtain ⟨ks, hnodup, _, hout⟩ := LawfulDirectedGraph.outLinks_eq x.store i
  refine List.Nodup.of_map (fun e => x.linkOf.lookup e.id) ?_
  rw [List.map_map]
  refine nodup_of_places _ hout.symm hnodup fun k _ l hlink => ?_
  exact (h.link_spec hlink).2.1

theorem mem_edgesBetween_iff (h : x.Represents g) {child parent : String} :
    e ∈ x.edgesBetween child parent ↔ e ∈ g.edges ∧ e.child = child ∧ e.parent = parent := by
  unfold IndexedGraph.edgesBetween
  split
  · next i j hi hj =>
    have hlink : e ∈ ((outLinks x.store i).filter (·.target = j)).map (·.edge) ↔
        ∃ k, link? x.store k = some ⟨i, j, e⟩ := by
      simp only [List.mem_map, List.mem_filter, LawfulDirectedGraph.mem_outLinks_iff,
        decide_eq_true_eq]
      constructor
      · rintro ⟨⟨_, _, _⟩, ⟨⟨rfl, hk⟩, rfl⟩, rfl⟩
        exact hk
      · intro hk
        exact ⟨⟨i, j, e⟩, ⟨⟨rfl, hk⟩, rfl⟩, rfl⟩
    rw [hlink, h.exists_link_iff, h.lookup_eq_iff hi, h.lookup_eq_iff hj]
  · next hnone =>
    refine iff_of_false List.not_mem_nil ?_
    rintro ⟨he, rfl, rfl⟩
    obtain ⟨i, j, hi, hj, _⟩ := h.exists_ends he
    exact hnone i j hi hj

theorem nodup_edgesBetween (h : x.Represents g) (child parent : String) :
    (x.edgesBetween child parent).Nodup := by
  unfold IndexedGraph.edgesBetween
  split
  · next i j _ _ => exact (h.nodup_outLinks i).sublist (List.filter_sublist.map _)
  · exact List.nodup_nil

/-- What is answered by way of indices is what the graph has. -/
theorem shows_view (h : x.Represents g) : ∃ view, x.view? = some view ∧ view.Shows g := by
  refine ⟨_, by simp only [view?, h.vertices?_eq, h.edges?_eq]; rfl, ?_⟩
  exact {
    vertices := rfl
    edges := rfl
    vertexCount := h.nodeCount
    edgeCount := h.linkCount
    depths := fun id => congrArg (·.get? id) h.depths
    network := congrArg (·.entries) h.network
    parents := fun _ => h.answers_parents rfl rfl
    children := fun _ => h.answers_children rfl rfl
    edgesBetweenOnce := h.nodup_edgesBetween
    edgesBetween := fun _ _ _ => h.mem_edgesBetween_iff }

end Represents

end IndexedGraph

namespace History

variable {D : Type} [DirectedGraph D] [LawfulDirectedGraph D]

theorem indexed_represents (h : History) :
    ∃ x : IndexedGraph D, h.indexed = some x ∧ x.Represents h.graph := by
  induction h with
  | start maxDepth => exact ⟨_, rfl, .empty maxDepth⟩
  | addVertex h v hv depth ih =>
    obtain ⟨x, hx, hrep⟩ := ih
    obtain ⟨x', hx', hrep'⟩ := hrep.addVertex hv depth
    exact ⟨x', by simp [indexed, hx, hx'], hrep'⟩
  | addEdge h e ih =>
    obtain ⟨x, hx, hrep⟩ := ih
    obtain ⟨x', hx', hrep'⟩ := hrep.addEdge e
    exact ⟨x', by simp [indexed, hx, hx'], hrep'⟩
  | putNetwork h v hv depth ih =>
    obtain ⟨x, hx, hrep⟩ := ih
    obtain ⟨x', hx', hrep'⟩ := hrep.putNetwork hv depth
    exact ⟨x', by simp [indexed, hx, hx'], hrep'⟩
  | merge h other ih ihother =>
    obtain ⟨x, hx, hrep⟩ := ih
    obtain ⟨y, hy, hrepy⟩ := ihother
    obtain ⟨x', hx', hrep'⟩ := hrep.merge hrepy
    exact ⟨x', by simp [indexed, hx, hy, hx'], hrep'⟩

/-- What is added to a graph is what it shows, also where its vertices and edges are kept under
indices. -/
theorem describes_view (h : History) : h.Describes h.graph.view ∧
    ∃ (x : IndexedGraph D) (view : GraphView),
      h.indexed = some x ∧ x.view? = some view ∧ h.Describes view := by
  have hbuilds := h.builds_graph
  obtain ⟨x, hx, hrep⟩ := h.indexed_represents (D := D)
  obtain ⟨view, hview, hshows⟩ := hrep.shows_view
  exact ⟨hbuilds.describes hbuilds.wellFormed.shows_view, x, view, hx, hview, hbuilds.describes hshows⟩

/-- Two edges between the same ends, one of which is added once more with other ends, and a vertex that
gains annotations both by itself and by a merge. -/
def parallel : History :=
  let named (text : String) : Annotations := .ofList [("name", text)]
  let first : History :=
    .addEdge (.addEdge (.start none) ⟨"e", "a", "b", .empty⟩) ⟨"f", "a", "b", .empty⟩
  let again : History := .addEdge (.addVertex first ⟨"a", named "x"⟩ (by decide) (some 3))
    ⟨"e", "c", "a", .empty⟩
  let other : History := .putNetwork (.addVertex (.start none) ⟨"a", named "y"⟩ (by decide) (some 1))
    ⟨"c", .empty⟩ (by decide) 2
  .merge again other

theorem describes_view_parallel : (parallel.Describes parallel.graph.view ∧
    ∃ (x : IndexedGraph ListedGraph) (view : GraphView),
      parallel.indexed = some x ∧ x.view? = some view ∧ parallel.Describes view) ∧
    parallel.graph.view.ids = ["a", "b", "c"] ∧
    parallel.graph.view.edges = [⟨"e", "a", "b", .empty⟩, ⟨"f", "a", "b", .empty⟩] ∧
    annotationOf? parallel.vertices "a" "name" = some "y" ∧ leastDepth? parallel.depths "a" = some 1 :=
  ⟨parallel.describes_view, by decide, by decide, by decide, by decide⟩

end History

end Provenance
