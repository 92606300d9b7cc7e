-- SUMMARY: Depths, network vertices and edges that a lineage over a source records.
import Provenance.Proofs.Engines
import Provenance.Proofs.Known
import Provenance.Proofs.RecordedDepths

/-!
# Depths and remote vertices of a lineage

What a lineage search records on its way, over a source of either kind: every vertex at the least
number of steps that lead to it, every remote vertex one less, and edges of the source only. A vertex
is met again at greater depths and along both ways; the bounds of `RecordedDepths` make such
repetitions harmless, since bounds that are met already add nothing.
-/
namespace Provenance.Source

variable {source : Source} {vs start : List Vertex} {es : List Edge} {isRemote : Vertex → Bool}
  {R S : String → Prop} {way : Way} {depth : Int} {visited remaining : List String}
  {x x' : Exploration} {id : String} {g g' : MemoryGraph} {i n k : Nat}

open MemoryGraph (Records)

/-! ## What a hop records -/

/-- A neighbour is recorded one deeper than the vertex it is met from, and a remote one as deep. -/
theorem records_meet (es : List Edge) (x : Exploration) (depth : Int) (visited : List String)
    {neighbour : Vertex} (hremote : isRemote neighbour = true ↔ R neighbour.id) :
    Records es x.graph (x.meet isRemote depth visited neighbour).graph
      (fun u n => u = neighbour.id ∧ depth + 1 ≤ n)
      (fun u n => u = neighbour.id ∧ R u ∧ depth ≤ n) := by
  have hadd := MemoryGraph.records_addVertex es x.graph neighbour (some (depth + 1))
  unfold Exploration.meet
  by_cases hr : isRemote neighbour = true
  · have hput := hadd.trans (MemoryGraph.records_putNetwork es _ neighbour depth)
    simp only [hr, if_true]
    refine hput.congr (by simp) fun u n => ?_
    simp only [false_or]
    exact and_congr_right fun hu => by simp [hu, hremote.mp hr]
  · have hR : ¬R neighbour.id := fun h => hr (hremote.mpr h)
    have hmet : Records es x.graph (x.graph.addVertex neighbour (some (depth + 1)))
        (fun u n => u = neighbour.id ∧ depth + 1 ≤ n)
        (fun u n => u = neighbour.id ∧ R u ∧ depth ≤ n) := by
      refine hadd.congr (by simp) fun u n => ?_
      simp only [false_iff]
      rintro ⟨rfl, h, _⟩
      exact hR h
    simp only [hr, Bool.false_eq_true, if_false]
    split <;> exact hmet

/-- Steps one after the other record what any of them records. -/
theorem records_foldlM {α : Type} {f : Exploration → α → Except Error Exploration}
    {D N : α → String → Int → Prop} {as : List α}
    (h : ∀ a ∈ as, ∀ y y', f y a = .ok y' → Records es y.graph y'.graph (D a) (N a))
    (hx : as.foldlM f x = .ok x') :
    Records es x.graph x'.graph (fun u n => ∃ a ∈ as, D a u n) (fun u n => ∃ a ∈ as, N a u n) := by
  induction as generalizing x with
  | nil =>
    obtain rfl := Except.ok.inj hx
    exact (Records.refl es x.graph).congr (by simp) (by simp)
  | cons a as ih =>
    rw [List.foldlM_cons, Except.bind_eq_ok] at hx
    obtain ⟨y, hy, hx⟩ := hx
    have hfirst := h a (by simp) x y hy
    have hrest := ih (fun b hb => h b (by simp [hb])) hx
    exact (hfirst.trans hrest).congr (by simp) (by simp)

section Hop

variable [RegexLibrary] (hsource : source.Answers vs es) (hremote : ∀ x ∈ vs, isRemote x = true ↔ R x.id)

include hsource hremote

theorem records_addNeighbour {neighbour : Vertex} (hneighbour : neighbour ∈ vs)
    (hx : source.addNeighbour isRemote way depth visited id x neighbour = .ok x') :
    Records es x.graph x'.graph (fun u n => u = neighbour.id ∧ depth + 1 ≤ n)
      (fun u n => u = neighbour.id ∧ R u ∧ depth ≤ n) := by
  obtain ⟨edges, hedges, hmem⟩ := hsource.edgesBetween (endpointsAlong way id neighbour.id).1
    (endpointsAlong way id neighbour.id).2
  have hx' : x' = { x.meet isRemote depth visited neighbour with
      graph := edges.foldl MemoryGraph.addEdge (x.meet isRemote depth visited neighbour).graph } := by
    simp only [addNeighbour] at hx
    rw [hedges] at hx
    exact (Except.ok.inj hx).symm
  rw [hx']
  have hmeet := records_meet es x depth visited (hremote neighbour hneighbour)
  have hedges : edges ⊆ es := fun e he => ((hmem e).mp he).1
  exact (hmeet.trans (MemoryGraph.records_addEdges _ hedges)).congr (by simp) (by simp)

/-- Expanding a vertex records its neighbours. -/
theorem records_expand (hx : source.expand isRemote way depth visited x id = .ok x') :
    Records es x.graph x'.graph (fun u n => Meets es way id u ∧ depth + 1 ≤ n)
      (fun u n => Meets es way id u ∧ R u ∧ depth ≤ n) := by
  obtain ⟨found, hfound, hmem⟩ := hsource.neighbours way id
  simp only [expand, hfound, ok_bind] at hx
  have hmeets := hsource.meets_iff hmem
  have hneighbour (neighbour : Vertex) (hn : neighbour ∈ found) (y y' : Exploration)
      (hy : source.addNeighbour isRemote way depth visited id y neighbour = .ok y') :
      Records es y.graph y'.graph (fun u n => u = neighbour.id ∧ depth + 1 ≤ n)
        (fun u n => u = neighbour.id ∧ R u ∧ depth ≤ n) :=
    records_addNeighbour hsource hremote ((hmem neighbour).mp hn).1 hy
  refine (records_foldlM hneighbour hx).congr (fun u n => ?_) fun u n => ?_
  · rw [← hmeets]
    simp only [← and_assoc, exists_and_right]
  · rw [← hmeets]
    simp only [← and_assoc, exists_and_right]

end Hop

/-! ## Hops -/

/-- What is recorded once the first layers are known: the least number of steps to a vertex, one less
for a remote vertex that is no start, and edges of the source only. -/
structure Recorded (es : List Edge) (R : String → Prop) (way : Way) (S : String → Prop) (i : Nat)
    (g : MemoryGraph) : Prop where
  depths : ∀ u n, g.depths.AtMost u n ↔
    ∃ m : Nat, m ≤ i ∧ m ≤ n ∧ Within (Expands es R way) S m u
  network : ∀ u n, g.network.AtMost u n ↔
    R u ∧ ∃ m : Nat, m ≤ i ∧ (m - 1 : Nat) ≤ n ∧ Within (Expands es R way) S m u
  distinct : g.network.Distinct
  edges : g.edges ⊆ es

namespace Recorded

/-- No vertex is recorded anew if no new one is reached. -/
theorem of_within (h : Recorded es R way S i g)
    (hlast : ∀ u, Within (Expands es R way) S (i + n) u → Within (Expands es R way) S i u) :
    Recorded es R way S (i + n) g := by
  -- the layer of a vertex is among the first ones
  have hlayer {m : Nat} {u : String} (hm : m ≤ i + n) (hw : Within (Expands es R way) S m u) :
      ∃ m' ≤ m, m' ≤ i ∧ Within (Expands es R way) S m' u := by
    obtain ⟨m', hm', hat⟩ := hw.exists_at
    exact ⟨m', hm', hat.le_of_within (hlast u (hw.mono hm)), hat.1⟩
  refine ⟨fun u b => ?_, fun u b => ?_, h.distinct, h.edges⟩
  · rw [h.depths]
    constructor
    · rintro ⟨m, hm, hb, hw⟩
      exact ⟨m, by omega, hb, hw⟩
    · rintro ⟨m, hm, hb, hw⟩
      obtain ⟨m', hle, hm', hw'⟩ := hlayer hm hw
      exact ⟨m', hm', by omega, hw'⟩
  · rw [h.network]
    refine and_congr_right fun _ => ⟨?_, ?_⟩
    · rintro ⟨m, hm, hb, hw⟩
      exact ⟨m, by omega, hb, hw⟩
    · rintro ⟨m, hm, hb, hw⟩
      obtain ⟨m', hle, hm', hw'⟩ := hlayer hm hw
      exact ⟨m', hm', by omega, hw'⟩

/-- With what the last layer meets, the next one is recorded. -/
theorem next (h : Recorded es R way S i g) (hhops : HopsSoFar es R way S i remaining visited g)
    (hrecords : Records es g g'
      (fun u n => ∃ p ∈ remaining, Meets es way p u ∧ (i : Int) + 1 ≤ n)
      (fun u n => ∃ p ∈ remaining, Meets es way p u ∧ R u ∧ (i : Int) ≤ n)) :
    Recorded es R way S (i + 1) g' := by
  -- whoever is met is within one step more, and who is reached first then is met
  have hmeets {p u : String} (hp : p ∈ remaining) (hmeets : Meets es way p u) :
      Within (Expands es R way) S (i + 1) u := by
    obtain ⟨hat, hR⟩ := (hhops.remaining p).mp hp
    exact hat.1.snoc ⟨hR, hmeets⟩
  have hmet {m : Nat} {u : String} (hm : m ≤ i + 1) (hw : Within (Expands es R way) S m u) :
      (∃ m' ≤ m, m' ≤ i ∧ Within (Expands es R way) S m' u) ∨
        m = i + 1 ∧ ∃ p ∈ remaining, Meets es way p u := by
    obtain ⟨m', hm', hat⟩ := hw.exists_at
    by_cases hle : m' ≤ i
    · exact .inl ⟨m', hm', hle, hat.1⟩
    · obtain rfl : m' = i + 1 := by omega
      obtain ⟨p, hp, hR, hstep⟩ := hat.exists_pred
      exact .inr ⟨by omega, p, (hhops.remaining p).mpr ⟨hp, hR⟩, hstep⟩
  refine ⟨fun u b => ?_, fun u b => ?_, hrecords.distinct h.distinct, hrecords.edges h.edges⟩
  · rw [hrecords.depths, h.depths]
    constructor
    · rintro (⟨m, hm, hb, hw⟩ | ⟨p, hp, hstep, hb⟩)
      · exact ⟨m, by omega, hb, hw⟩
      · exact ⟨i + 1, le_rfl, by omega, hmeets hp hstep⟩
    · rintro ⟨m, hm, hb, hw⟩
      obtain ⟨m', hle, hm', hw'⟩ | ⟨rfl, p, hp, hstep⟩ := hmet hm hw
      · exact .inl ⟨m', hm', by omega, hw'⟩
      · exact .inr ⟨p, hp, hstep, by omega⟩
  · rw [hrecords.network, h.network]
    constructor
    · rintro (⟨hR, m, hm, hb, hw⟩ | ⟨p, hp, hstep, hR, hb⟩)
      · exact ⟨hR, m, by omega, hb, hw⟩
      · exact ⟨hR, i + 1, le_rfl, by omega, hmeets hp hstep⟩
    · rintro ⟨hR, m, hm, hb, hw⟩
      obtain ⟨m', hle, hm', hw'⟩ | ⟨rfl, p, hp, hstep⟩ := hmet hm hw
      · exact .inl ⟨hR, m', hm', by omega, hw'⟩
      · exact .inr ⟨p, hp, hstep, hR, by omega⟩

/-- What hops record. -/
theorem hops [RegexLibrary] (hsource : source.Answers vs es) (hremote : ∀ x ∈ vs, isRemote x = true ↔ R x.id)
    (h : Recorded es R way S i g) (hhops : HopsSoFar es R way S i remaining visited g)
    (hg : source.hops isRemote way n i remaining visited g = .ok g') :
    Recorded es R way S (i + n) g' := by
  induction n generalizing i remaining visited g with
  | zero =>
    obtain rfl := Except.ok.inj hg
    exact h
  | succ n ih =>
    cases remaining with
    | nil =>
      obtain rfl := Except.ok.inj hg
      exact h.of_within fun u hw =>
        (hhops.vertices u).mp (((hhops.explored_of_rest (n + 1)).vertices u).mpr hw)
    | cons u us =>
      obtain ⟨x, hx, hnext⟩ := hhops.step hsource hremote i
      have hrecords := records_foldlM (fun u _ y y' hy => records_expand hsource hremote hy) hx
      simp only [Source.hops, List.isEmpty_cons, Bool.false_eq_true, if_false] at hg
      rw [hx] at hg
      have hrest := ih (h.next hhops hrecords) hnext (by exact_mod_cast hg)
      have hcount : i + (n + 1) = i + 1 + n := by omega
      exact hcount ▸ hrest

end Recorded

/-! ## Lineage -/

/-- The start vertices are recorded at depth zero. -/
theorem records_seeded (es : List Edge) (hstart : ∀ x ∈ start, isRemote x = true ↔ R x.id)
    (maxDepth : Int) :
    Records es (MemoryGraph.empty (some maxDepth)) (seeded isRemote start maxDepth)
      (fun u n => Starts start u ∧ 0 ≤ n) (fun u n => Starts start u ∧ R u ∧ 0 ≤ n) := by
  have hone (v : Vertex) (hv : v ∈ start) (g : MemoryGraph) : Records es g
      (let g := g.addVertex v (some 0); if isRemote v then g.putNetwork v 0 else g)
      (fun u n => u = v.id ∧ 0 ≤ n) (fun u n => u = v.id ∧ R u ∧ 0 ≤ n) := by
    have hadd := MemoryGraph.records_addVertex es g v (some 0)
    by_cases hr : isRemote v = true
    · simp only [hr, if_true]
      refine (hadd.trans (MemoryGraph.records_putNetwork es _ v 0)).congr (by simp) fun u n => ?_
      simp only [false_or]
      exact and_congr_right fun hu => by simp [hu, (hstart v hv).mp hr]
    · have hR : ¬R v.id := fun h => hr ((hstart v hv).mpr h)
      simp only [hr, Bool.false_eq_true, if_false]
      refine hadd.congr (by simp) fun u n => ?_
      simp only [false_iff]
      rintro ⟨rfl, h, _⟩
      exact hR h
  have hrooted : Records es (MemoryGraph.empty (some maxDepth))
      { MemoryGraph.empty (some maxDepth) with root := start.head?.map Vertex.id } _ _ :=
    (Records.refl es _).same rfl rfl rfl
  refine (hrooted.trans (Records.foldl hone _)).congr (fun u n => ?_) fun u n => ?_
  · simp only [Starts, false_or, ← and_assoc, exists_and_right, eq_comm]
  · simp only [Starts, false_or, ← and_assoc, exists_and_right, eq_comm]

theorem recorded_seeded (es : List Edge) (way : Way)
    (hstart : ∀ x ∈ start, isRemote x = true ↔ R x.id) (maxDepth : Int) :
    Recorded es R way (Starts start) 0 (seeded isRemote start maxDepth) := by
  have h := records_seeded es hstart maxDepth
  refine ⟨fun u n => ?_, fun u n => ?_, h.distinct List.nodup_nil, h.edges (List.nil_subset _)⟩
  · have hempty : ¬(MemoryGraph.empty (some maxDepth)).depths.AtMost u n := Depths.not_atMost_empty
    simp [h.depths, hempty, Within.zero_iff, and_comm]
  · have hempty : ¬(MemoryGraph.empty (some maxDepth)).network.AtMost u n := Depths.not_atMost_empty
    simp [h.network, hempty, Within.zero_iff, and_comm, and_assoc]

section Lineage

variable [RegexLibrary] (hsource : source.Answers vs es) (hremote : ∀ x ∈ vs, isRemote x = true ↔ R x.id)
  (hstart : ∀ x ∈ start, isRemote x = true ↔ R x.id)

include hsource hremote hstart

theorem recorded_traverse (hg : source.traverse isRemote start k way = .ok g) :
    Recorded es R way (Starts start) k g := by
  have hbefore := recorded_seeded es way hstart k
  have hgoal := hbefore.hops hsource hremote (hopsSoFar_seeded hstart k) hg
  exact Nat.zero_add k ▸ hgoal

/-- The ways one after the other record what any of them does. -/
theorem records_ways {ways : List Way}
    (hg : ways.foldlM (fun (g : MemoryGraph) way =>
      return g.merge (← source.traverse isRemote start k way)) g = .ok g') :
    Records es g g'
      (fun u n => ∃ way ∈ ways, ∃ m : Nat, m ≤ k ∧ m ≤ n ∧
        Within (Expands es R way) (Starts start) m u)
      (fun u n => R u ∧ ∃ way ∈ ways, ∃ m : Nat, m ≤ k ∧ (m - 1 : Nat) ≤ n ∧
        Within (Expands es R way) (Starts start) m u) := by
  induction ways generalizing g with
  | nil =>
    obtain rfl := Except.ok.inj hg
    exact (Records.refl es g).congr (by simp) (by simp)
  | cons way ways ih =>
    obtain ⟨found, hrun, hexplored⟩ := exists_traverse hsource hremote hstart k way
    have hrecorded := recorded_traverse hsource hremote hstart hrun
    have hmerge := MemoryGraph.records_merge g hrecorded.distinct hrecorded.edges
    have hrest := ih (g := g.merge found) (by simpa [hrun] using hg)
    refine (hmerge.trans hrest).congr (fun u n => ?_) fun u n => ?_
    · rw [hexplored.vertices, hrecorded.depths, List.exists_mem_cons_iff]
      refine or_congr_left ⟨And.right, fun h => ⟨?_, h⟩⟩
      obtain ⟨m, hm, -, hw⟩ := h
      exact hw.mono hm
    · rw [hrecorded.network, List.exists_mem_cons_iff, and_or_left]

end Lineage

/-! ## Backends -/

/-- The backend holds these vertices and edges: annotation tables in which every id is a text of its
own and every end of an edge a vertex, or a graph in memory. -/
inductive Holds : Source → List Vertex → List Edge → Prop where
  | tables {env : Environment} {db : Database} {vertices edges : Table}
    (hworld : env.IsTextWorld db vertices edges)
    (hvertices : (vertices.values env.schema.idColumn).Nodup)
    (hedges : (edges.values env.schema.idColumn).Nodup) :
    Holds (.tables env.schema db) (vertices.rows.map (env.schema.vertexOf vertices))
      (edges.rows.map (env.schema.edgeOf edges))
  | memory {g : MemoryGraph} (h : g.WellFormed) : Holds (.graph g) g.vertices g.edges

/-- Rows with texts of their own stand for elements with ids of their own. -/
theorem nodup_labels {t : Table} {column : String} (hnodup : (t.values column).Nodup)
    (htexts : ∀ r ∈ t.rows, ∃ u, r.get column = .text u) :
    (t.rows.map fun r => (r.get column).label).Nodup := by
  have hlabels : (t.rows.map fun r => (r.get column).label) = (t.values column).map Value.label := by
    simp [Table.values]
  rw [hlabels]
  refine hnodup.map_on fun v hv w hw heq => ?_
  obtain ⟨r, hr, rfl⟩ := List.mem_map.mp hv
  obtain ⟨r', hr', rfl⟩ := List.mem_map.mp hw
  obtain ⟨u, hu⟩ := htexts r hr
  obtain ⟨u', hu'⟩ := htexts r' hr'
  simp only [hu, hu', Value.label_text] at heq ⊢
  rw [heq]

namespace Holds

variable {ps : List Predicate}

theorem answers [RegexLibrary] (h : source.Holds vs es) : source.Answers vs es := by
  cases h with
  | tables hworld => exact hworld.answers
  | memory h => exact h.answers

theorem nodup_vertexIds (h : source.Holds vs es) : (vs.map (·.id)).Nodup := by
  cases h with
  | tables hworld hvertices =>
    rw [List.map_map]
    exact nodup_labels hvertices hworld.vertexTexts
  | memory h => exact h.vertices

theorem nodup_edgeIds (h : source.Holds vs es) : (es.map (·.id)).Nodup := by
  cases h with
  | tables hworld _ hedges =>
    rw [List.map_map]
    exact nodup_labels hedges hworld.edgeTexts
  | memory h => exact h.edges

/-- Predicates narrow a list of elements down. -/
theorem foldlM_subset {α : Type} {f : List α → Predicate → Except Error (List α)}
    (hf : ∀ xs p ys, f xs p = .ok ys → ys ⊆ xs) {xs ys : List α}
    (h : ps.foldlM f xs = .ok ys) : ys ⊆ xs := by
  induction ps generalizing xs with
  | nil => exact Except.ok.inj h ▸ List.Subset.refl _
  | cons p ps ih =>
    rw [List.foldlM_cons, Except.bind_eq_ok] at h
    obtain ⟨zs, hzs, h⟩ := h
    exact List.Subset.trans (ih h) (hf xs p zs hzs)

theorem vertices_subset [RegexLibrary] (h : source.Holds vs es) (hfound : source.vertices ps = .ok start) :
    start ⊆ vs := by
  cases h with
  | @tables env db vertices edges hworld =>
    simp only [Source.vertices, hworld.tableWith_vertices, ok_bind] at hfound
    obtain ⟨rows, hrows, hfound⟩ := Except.bind_eq_ok.mp hfound
    obtain rfl := Except.ok.inj hfound
    refine List.map_subset _ ?_
    unfold selectRows at hrows
    dsimp only at hrows
    split at hrows
    · obtain rfl := Except.ok.inj hrows
      exact List.nil_subset _
    · obtain ⟨-, hrows⟩ := Except.guard_eq_ok.mp hrows
      exact foldlM_subset (fun _ _ _ => Predicate.filterRows_subset) hrows
  | memory =>
    refine foldlM_subset (fun xs p ys hys => ?_) hfound
    unfold Predicate.filterElements at hys
    dsimp only at hys
    split at hys
    · cases hys
    · obtain rfl := Except.ok.inj hys
      exact List.filter_subset_self _

end Holds

/-! ## What a lineage is -/

section Exact

/-- Some vertex of this id has to be resolved on another host. -/
def RemoteIn (isRemote : Vertex → Bool) (vs : List Vertex) (u : String) : Prop :=
  ∃ x ∈ vs, x.id = u ∧ isRemote x = true

/-- A walk of `n` edges in one of the directions leads from a start to the vertex, and leaves no remote
vertex on its way. -/
def Reaches (es : List Edge) (R : String → Prop) (ways : List Way) (start : List Vertex) (n : Nat)
    (u : String) : Prop :=
  ∃ way ∈ ways, ∃ v ∈ start, Walk (Expands es R way) n v.id u

/-- A bound that shorter walks meet as well is met by a walk of just that length. -/
theorem exists_within_iff {ways : List Way} {P : Nat → Prop} {u : String}
    (hP : ∀ m n, m ≤ n → P n → P m) :
    (∃ way ∈ ways, ∃ m ≤ k, P m ∧ Within (Expands es R way) (Starts start) m u) ↔
      ∃ m ≤ k, P m ∧ Reaches es R ways start m u := by
  constructor
  · rintro ⟨way, hway, m, hm, hPm, j, hj, _, ⟨v, hv, rfl⟩, hw⟩
    exact ⟨j, hj.trans hm, hP j m hj hPm, way, hway, v, hv, hw⟩
  · rintro ⟨m, hm, hPm, way, hway, v, hv, hw⟩
    exact ⟨way, hway, m, hm, hPm, m, le_rfl, v.id, ⟨v, hv, rfl⟩, hw⟩

theorem within_iff_reaches {ways : List Way} {u : String} :
    (∃ way ∈ ways, Within (Expands es R way) (Starts start) k u) ↔
      ∃ m ≤ k, Reaches es R ways start m u := by
  constructor
  · rintro ⟨way, hway, m, hm, _, ⟨v, hv, rfl⟩, hw⟩
    exact ⟨m, hm, way, hway, v, hv, hw⟩
  · rintro ⟨m, hm, way, hway, v, hv, hw⟩
    exact ⟨way, hway, m, hm, v.id, ⟨v, hv, rfl⟩, hw⟩

theorem exists_lt_within_iff {u : String} :
    (∃ n < k, Within (Expands es R way) (Starts start) n u) ↔
      ∃ n < k, Reaches es R [way] start n u := by
  constructor
  · rintro ⟨n, hn, hw⟩
    obtain ⟨m, hm, hreaches⟩ := within_iff_reaches.mp ⟨way, List.mem_singleton_self way, hw⟩
    exact ⟨m, by omega, hreaches⟩
  · rintro ⟨n, hn, hreaches⟩
    obtain ⟨_, hway, hw⟩ := within_iff_reaches.mpr ⟨n, le_rfl, hreaches⟩
    exact ⟨n, hn, List.mem_singleton.mp hway ▸ hw⟩

theorem ways_ne_nil (direction : Direction) : direction.ways ≠ [] := by
  cases direction <;> simp [Direction.ways]

theorem reaches_zero_iff {ways : List Way} (hways : ways ≠ []) {u : String} :
    Reaches es R ways start 0 u ↔ Starts start u := by
  constructor
  · rintro ⟨_, _, v, hv, hw⟩
    exact ⟨v, hv, hw.eq_of_zero⟩
  · rintro ⟨v, hv, rfl⟩
    obtain ⟨way, hway⟩ := List.exists_mem_of_ne_nil ways hways
    exact ⟨way, hway, v, hv, .nil v.id⟩

/-- What a lineage has recorded in the end. -/
theorem recorded_lineage [RegexLibrary] (hsource : source.Answers vs es)
    (hremote : ∀ x ∈ vs, isRemote x = true ↔ R x.id)
    (hstart : ∀ x ∈ start, isRemote x = true ↔ R x.id) {ps : List Predicate}
    (hfound : source.vertices ps = .ok start) (hsome : start ≠ []) {direction : Direction}
    (hg : source.lineage isRemote ps k direction = .ok g) :
    (∀ u n, g.depths.AtMost u n ↔
      ∃ m ≤ k, (m : Int) ≤ n ∧ Reaches es R direction.ways start m u) ∧
    (∀ u n, g.network.AtMost u n ↔
      R u ∧ ∃ m ≤ k, ((m - 1 : Nat) : Int) ≤ n ∧ Reaches es R direction.ways start m u) ∧
    g.edges ⊆ es := by
  have hdepth : ¬(k : Int) < 0 := by omega
  simp only [lineage, hdepth, if_false, hfound, ok_bind, List.isEmpty_iff, hsome] at hg
  obtain ⟨united, hrun, hg⟩ := Except.bind_eq_ok.mp hg
  obtain rfl := Except.ok.inj hg
  have hrecords := records_ways hsource hremote hstart hrun
  refine ⟨fun u n => ?_, fun u n => ?_, hrecords.edges (List.nil_subset _)⟩
  · rw [← exists_within_iff fun _ _ hle hn => by omega]
    exact (hrecords.depths u n).trans (or_iff_right Depths.not_atMost_empty)
  · rw [← exists_within_iff fun _ _ hle hn => by omega]
    exact (hrecords.network u n).trans (or_iff_right Depths.not_atMost_empty)

/-- A remote vertex is recorded at depth zero if it is a start, and else one less than it is reached. -/
theorem network_eq_some_iff {ways : List Way} (hways : ways ≠ [])
    (hdepths : ∀ u n, g.depths.AtMost u n ↔ ∃ m ≤ k, (m : Int) ≤ n ∧ Reaches es R ways start m u)
    (hnetwork : ∀ u n, g.network.AtMost u n ↔
      R u ∧ ∃ m ≤ k, ((m - 1 : Nat) : Int) ≤ n ∧ Reaches es R ways start m u)
    {u : String} {depth : Int} :
    g.network.get? u = some depth ↔ (∃ n ≤ k, Reaches es R ways start n u) ∧ R u ∧
      (Starts start u ∧ depth = 0 ∨ ¬Starts start u ∧ g.depth? u = some (depth + 1)) := by
  have hreached (n : Int) := Depths.get?_eq_some_iff_isLeast (n := n) monotone_id (hdepths u)
  have hrecorded (hR : R u) : g.network.get? u = some depth ↔
      ∃ m ≤ k, IsLeast { i | Reaches es R ways start i u } m ∧ depth = (m - 1 : Nat) :=
    Depths.get?_eq_some_iff_isLeast (fun m n hmn => Nat.sub_le_sub_right hmn 1)
      fun n => (hnetwork u n).trans (and_iff_right hR)
  -- the starts are the vertices that no step is needed to reach
  have hnotzero (hstart : ¬Starts start u) {m : Nat}
      (hleast : IsLeast { i | Reaches es R ways start i u } m) : m ≠ 0 := by
    rintro rfl
    exact hstart ((reaches_zero_iff hways).mp hleast.1)
  constructor
  · intro hget
    obtain ⟨hR, -⟩ := (hnetwork u depth).mp ⟨depth, le_rfl, hget⟩
    obtain ⟨m, hm, hleast, hdepth⟩ := (hrecorded hR).mp hget
    refine ⟨⟨m, hm, hleast.1⟩, hR, ?_⟩
    by_cases hstart : Starts start u
    · have hzero : m ≤ 0 := hleast.2 ((reaches_zero_iff hways).mpr hstart)
      exact .inl ⟨hstart, by omega⟩
    · have hne : m ≠ 0 := hnotzero hstart hleast
      have hnext : depth + 1 = (id m : Int) := by
        simp only [id_eq]
        omega
      exact .inr ⟨hstart, (hreached (depth + 1)).mpr ⟨m, hm, hleast, hnext⟩⟩
  · rintro ⟨-, hR, ⟨hstart, rfl⟩ | ⟨hstart, hget⟩⟩
    · exact (hrecorded hR).mpr ⟨0, Nat.zero_le k,
        ⟨(reaches_zero_iff hways).mpr hstart, fun _ _ => Nat.zero_le _⟩, rfl⟩
    · obtain ⟨m, hm, hleast, hdepth⟩ := (hreached (depth + 1)).mp hget
      simp only [id_eq] at hdepth
      have hprevious : depth = (m - 1 : Nat) := by
        have hne : m ≠ 0 := hnotzero hstart hleast
        omega
      exact (hrecorded hR).mpr ⟨m, hm, hleast, hprevious⟩

/-- Lineage over a backend of either kind finds exactly the vertices that walks reach which leave no
remote vertex, each at the length of the shortest; the edges by which such walks go on; and the remote
vertices among those reached, at depth zero if they are starts and else one less than the vertex. -/
theorem lineage_with_remote_exact [RegexLibrary] (h : source.Holds vs es) (isRemote : Vertex → Bool)
    {ps : List Predicate} (hfound : source.vertices ps = .ok start) (hsome : start ≠ []) (k : Nat)
    (direction : Direction) :
    ∃ g, source.lineage isRemote ps k direction = .ok g ∧
      (∀ u, u ∈ g.vertexIds ↔
        ∃ n ≤ k, Reaches es (RemoteIn isRemote vs) direction.ways start n u) ∧
      (∀ u depth, g.depth? u = some depth ↔ ∃ n ≤ k,
        IsLeast { m | Reaches es (RemoteIn isRemote vs) direction.ways start m u } n ∧
          depth = (n : Int)) ∧
      (∀ e, e ∈ g.edges ↔ e ∈ es ∧ ∃ way ∈ direction.ways, ¬RemoteIn isRemote vs (e.near way) ∧
        ∃ n < k, Reaches es (RemoteIn isRemote vs) [way] start n (e.near way)) ∧
      ∀ u depth, g.network.get? u = some depth ↔ u ∈ g.vertexIds ∧ RemoteIn isRemote vs u ∧
        (Starts start u ∧ depth = 0 ∨ ¬Starts start u ∧ g.depth? u = some (depth + 1)) := by
  let R := RemoteIn isRemote vs
  have hremote (x : Vertex) (hx : x ∈ vs) : isRemote x = true ↔ R x.id := by
    refine ⟨fun hr => ⟨x, hx, rfl, hr⟩, ?_⟩
    rintro ⟨y, hy, hid, hr⟩
    exact List.inj_on_of_nodup_map h.nodup_vertexIds hy hx hid ▸ hr
  have hstart (x : Vertex) (hx : x ∈ start) := hremote x (h.vertices_subset hfound hx)
  obtain ⟨g, hg, hvertices, hedges⟩ :=
    exists_lineage h.answers hremote hstart hfound hsome k direction
  obtain ⟨hdepths, hnetwork, hsubset⟩ :=
    recorded_lineage h.answers hremote hstart hfound hsome hg
  have hmem (u : String) : u ∈ g.vertexIds ↔ ∃ n ≤ k, Reaches es R direction.ways start n u :=
    (hvertices u).trans within_iff_reaches
  refine ⟨g, hg, hmem, fun u depth => Depths.get?_eq_some_iff_isLeast monotone_id (hdepths u),
    fun e => ?_, fun u depth => ?_⟩
  · have hsame {e e' : Edge} (he : e ∈ es) (he' : e' ∈ es) (hid : e.id = e'.id) : e = e' :=
      List.inj_on_of_nodup_map h.nodup_edgeIds he he' hid
    constructor
    · intro he
      obtain ⟨way, hway, e', he', hid, hR, hw⟩ := (hedges e.id).mp (List.mem_map_of_mem he)
      obtain rfl := hsame he' (hsubset he) hid
      exact ⟨he', way, hway, hR, exists_lt_within_iff.mp hw⟩
    · rintro ⟨he, way, hway, hR, hw⟩
      obtain ⟨e', he', hid⟩ := List.mem_map.mp
        ((hedges e.id).mpr ⟨way, hway, e, he, rfl, hR, exists_lt_within_iff.mpr hw⟩)
      exact hsame (hsubset he') he hid ▸ he'
  · rw [hmem]
    exact network_eq_some_iff (ways_ne_nil direction) hdepths hnetwork

end Exact

/-! ## A process that uses a socket -/

def peers : List Vertex :=
  [⟨"p", ⟨[("type", "Process")]⟩⟩, ⟨"n", ⟨[("subtype", "network socket")]⟩⟩,
    ⟨"f", ⟨[("type", "Artifact")]⟩⟩]

def links : List Edge := [⟨"e1", "p", "n", .empty⟩, ⟨"e2", "n", "f", .empty⟩]

def peerTable : Table :=
  ⟨[⟨"hash", .text⟩, ⟨"type", .text⟩, ⟨"subtype", .text⟩],
    [⟨[("hash", .text "p"), ("type", .text "Process"), ("subtype", .null)]⟩,
      ⟨[("hash", .text "n"), ("type", .null), ("subtype", .text "network socket")]⟩,
      ⟨[("hash", .text "f"), ("type", .text "Artifact"), ("subtype", .null)]⟩]⟩

def linkTable : Table :=
  ⟨[⟨"hash", .text⟩, ⟨"childhash", .text⟩, ⟨"parenthash", .text⟩],
    [⟨[("hash", .text "e1"), ("childhash", .text "p"), ("parenthash", .text "n")]⟩,
      ⟨[("hash", .text "e2"), ("childhash", .text "n"), ("parenthash", .text "f")]⟩]⟩

def peerDatabase : Database := ⟨[("vertex", peerTable), ("edge", linkTable)]⟩

theorem isTextWorld_peers :
    Environment.IsTextWorld ⟨.standard, Environment.standardStem, .empty, .empty⟩ peerDatabase
      peerTable linkTable where
  vertexTable := by decide
  edgeTable := by decide
  vertexIds := ⟨by decide, by decide, by unfold Affinity.Keeps; decide⟩
  edgeIds column hcolumn := by
    simp only [Schema.reserved, List.mem_cons, List.not_mem_nil, or_false] at hcolumn
    rcases hcolumn with rfl | rfl | rfl <;>
      exact ⟨by decide, by decide, by unfold Affinity.Keeps; decide⟩
  names := by decide
  vertexTexts r hr := by
    simp only [peerTable, List.mem_cons, List.not_mem_nil, or_false] at hr
    rcases hr with rfl | rfl | rfl <;> exact ⟨_, rfl⟩
  edgeTexts r hr := by
    simp only [linkTable, List.mem_cons, List.not_mem_nil, or_false] at hr
    rcases hr with rfl | rfl <;> exact ⟨_, rfl⟩
  ends := by decide

theorem holds_peerTables : (Source.tables .standard peerDatabase).Holds peers links :=
  .tables isTextWorld_peers (by decide) (by decide)

theorem holds_peerGraph : (Source.graph (.ofElements peers links)).Holds peers links :=
  .memory ((MemoryGraph.adds_ofElements (by decide)).wellFormed (MemoryGraph.wellFormed_empty none))

theorem remoteIn_peers : RemoteIn Vertex.isNetwork peers "n" :=
  ⟨⟨"n", ⟨[("subtype", "network socket")]⟩⟩, by decide, rfl, by decide⟩

/-- The only walks from the process end there or at the socket. -/
theorem reaches_peers {n : Nat} {u : String} :
    Reaches links (RemoteIn Vertex.isNetwork peers) Direction.ancestor.ways (peers.take 1) n u ↔
      n = 0 ∧ u = "p" ∨ n = 1 ∧ u = "n" := by
  constructor
  · rintro ⟨way, hway, v, hv, hw⟩
    obtain rfl := List.mem_singleton.mp hway
    obtain rfl := List.mem_singleton.mp hv
    cases hw with
    | nil => exact .inl ⟨rfl, rfl⟩
    | cons hfirst hrest =>
      obtain ⟨-, e, he, hnear, rfl⟩ := hfirst
      simp only [links, List.mem_cons, List.not_mem_nil, or_false] at he
      rcases he with rfl | rfl
      · cases hrest with
        | nil => exact .inr ⟨rfl, rfl⟩
        | cons hsecond _ => exact absurd remoteIn_peers hsecond.1
      · exact absurd hnear (by decide)
  · have hnot : ¬RemoteIn Vertex.isNetwork peers "p" := by
      rintro ⟨v, hv, hid, hremote⟩
      revert v
      decide
    rintro (⟨rfl, rfl⟩ | ⟨rfl, rfl⟩)
    · exact ⟨.ancestor, by decide, peers.head (by decide), by decide, .nil _⟩
    · exact ⟨.ancestor, by decide, peers.head (by decide), by decide,
        .cons ⟨hnot, ⟨"e1", "p", "n", .empty⟩, by decide, rfl, rfl⟩ (.nil _)⟩

/-- The search for what processes come from, at most two steps from them. -/
def lineageOfProcesses (source : Source) : Except Error MemoryGraph :=
  source.lineage Vertex.isNetwork [⟨"type", .equal, "Process"⟩] (2 : Nat) .ancestor

/-- The socket is on another host, so nothing behind it is found. -/
theorem lineage_with_remote_exact_peers :
    (∃ g, lineageOfProcesses (.tables .standard peerDatabase) = .ok g ∧
      g.network.get? "n" = some 0 ∧ "f" ∉ g.vertexIds) ∧
    ∃ g, lineageOfProcesses (.graph (.ofElements peers links)) = .ok g ∧
      g.network.get? "n" = some 0 ∧ "f" ∉ g.vertexIds := by
  have hsocket : IsLeast { m | Reaches links (RemoteIn Vertex.isNetwork peers)
      Direction.ancestor.ways (peers.take 1) m "n" } 1 := by
    refine ⟨reaches_peers.mpr (by decide), fun m hm => ?_⟩
    obtain ⟨-, h⟩ | ⟨rfl, -⟩ := reaches_peers.mp hm
    · exact absurd h (by decide)
    · exact le_rfl
  have hnotStart : ¬Starts (peers.take 1) "n" := by
    rintro ⟨v, hv, hid⟩
    obtain rfl := List.mem_singleton.mp hv
    exact absurd hid (by decide)
  have hfound (source : Source) (hholds : source.Holds peers links)
      (hprocesses : source.vertices [⟨"type", .equal, "Process"⟩] = .ok (peers.take 1)) :
      ∃ g, lineageOfProcesses source = .ok g ∧
        g.network.get? "n" = some 0 ∧ "f" ∉ g.vertexIds := by
    obtain ⟨g, hg, hvertices, hdepths, -, hnetwork⟩ :=
      lineage_with_remote_exact hholds Vertex.isNetwork hprocesses (by decide) 2 .ancestor
    refine ⟨g, hg, ?_, ?_⟩
    · exact (hnetwork "n" 0).mpr ⟨(hvertices "n").mpr ⟨1, by decide, hsocket.1⟩, remoteIn_peers,
        .inr ⟨hnotStart, (hdepths "n" 1).mpr ⟨1, by decide, hsocket, rfl⟩⟩⟩
    · rw [hvertices]
      rintro ⟨n, -, hreaches⟩
      obtain ⟨-, h⟩ | ⟨-, h⟩ := reaches_peers.mp hreaches
      · exact absurd h (by decide)
      · exact absurd h (by decide)
  exact ⟨hfound _ holds_peerTables rfl, hfound _ holds_peerGraph rfl⟩

end Provenance.Source
