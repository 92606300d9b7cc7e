-- SUMMARY: The vertices and edges that lineage by questions to a source finds.
import Provenance.Proofs.Sources

/-!
# Lineage vertex by vertex

A hop asks for the neighbours of every vertex that remains, and for the edges to each of them. Over
a source that answers about certain elements, the hops reach the vertices layer by layer, by walks
that leave no remote vertex, and find all edges by which such walks go on. The ways of a direction
are explored one after the other and their graphs united.
-/
namespace Provenance.Source

/-- A neighbour along the way. -/
def Meets (es : List Edge) (way : Way) (u v : String) : Prop :=
  ∃ e ∈ es, e.near way = u ∧ e.far way = v

/-- A step of an exploration, which does not leave a remote vertex. -/
def Expands (es : List Edge) (R : String → Prop) (way : Way) (u v : String) : Prop :=
  ¬ R u ∧ Meets es way u v

variable {source : Source} {vs : List Vertex} {es : List Edge} {isRemote : Vertex → Bool}
  {R S : String → Prop} {way : Way} {depth : Int} {visited remaining : List String}
  {x x' x'' : Exploration} {id : String} {g : MemoryGraph} {i : Nat}

/-! ## What a hop adds -/

namespace Exploration

/-- From one state of a hop to the other these ids are added. -/
structure Adds (x x' : Exploration) (V I F : String → Prop) : Prop where
  graph : x.graph.Adds x'.graph V I
  frontier : ∀ u, u ∈ x'.frontier ↔ u ∈ x.frontier ∨ F u

namespace Adds

variable {V V' I I' F F' : String → Prop}

theorem refl (x : Exploration) : x.Adds x (fun _ => False) (fun _ => False) (fun _ => False) :=
  ⟨.refl _, by simp⟩

theorem trans (h : x.Adds x' V I F) (h' : x'.Adds x'' V' I' F') :
    x.Adds x'' (fun u => V u ∨ V' u) (fun i => I i ∨ I' i) (fun u => F u ∨ F' u) :=
  ⟨h.graph.trans h'.graph, fun u => by rw [h'.frontier, h.frontier, or_assoc]⟩

theorem congr (h : x.Adds x' V I F) (hV : ∀ u, V u ↔ V' u) (hI : ∀ i, I i ↔ I' i)
    (hF : ∀ u, F u ↔ F' u) : x.Adds x' V' I' F' :=
  ⟨h.graph.congr hV hI, fun u => by rw [h.frontier, hF]⟩

/-- Steps one after the other add what any of them adds, if each succeeds wherever the vertices that
were known at first are known. -/
theorem foldlM {α : Type} {f : Exploration → α → Except Error Exploration}
    {V I F : α → String → Prop} {as : List α}
    (h : ∀ a ∈ as, ∀ y : Exploration, (∀ u ∈ x.graph.vertexIds, u ∈ y.graph.vertexIds) →
      ∃ y', f y a = .ok y' ∧ y.Adds y' (V a) (I a) (F a)) :
    ∃ x', as.foldlM f x = .ok x' ∧ x.Adds x' (fun u => ∃ a ∈ as, V a u)
      (fun i => ∃ a ∈ as, I a i) (fun u => ∃ a ∈ as, F a u) := by
  induction as generalizing x with
  | nil => exact ⟨x, rfl, (refl x).congr (by simp) (by simp) (by simp)⟩
  | cons a as ih =>
    obtain ⟨y, hy, hfirst⟩ := h a (by simp) x fun _ hu => hu
    obtain ⟨x', hx', hrest⟩ := ih (x := y) fun b hb z hz =>
      h b (by simp [hb]) z fun u hu => hz u (hfirst.graph.keeps hu)
    refine ⟨x', by simp [hy, hx'], (hfirst.trans hrest).congr ?_ ?_ ?_⟩ <;> simp

end Adds
end Exploration

namespace Exploration

/-- A neighbour that was met, before the edges to it are known. -/
def meet (isRemote : Vertex → Bool) (depth : Int) (visited : List String) (x : Exploration)
    (neighbour : Vertex) : Exploration :=
  let graph := x.graph.addVertex neighbour (some (depth + 1))
  if isRemote neighbour then { x with graph := graph.putNetwork neighbour depth }
  else if visited.contains neighbour.id then { x with graph }
  else { graph, frontier := x.frontier ++ [neighbour.id] }

/-- A neighbour is to be expanded if it is new and not remote. -/
theorem adds_meet (x : Exploration) (depth : Int) (visited : List String) {neighbour : Vertex}
    (hremote : isRemote neighbour = true ↔ R neighbour.id) :
    x.Adds (x.meet isRemote depth visited neighbour) (· = neighbour.id) (fun _ => False)
      (fun u => u = neighbour.id ∧ ¬ R u ∧ u ∉ visited) := by
  let graph := x.graph.addVertex neighbour (some (depth + 1))
  have hgraph : x.graph.Adds graph _ _ := x.graph.adds_addVertex neighbour (some (depth + 1))
  by_cases hr : isRemote neighbour = true
  · have hput := hgraph.trans (graph.adds_putNetwork neighbour depth)
    simp only [meet, hr, if_true]
    refine ⟨hput.congr (by simp) (by simp), fun u => ⟨.inl, ?_⟩⟩
    rintro (hu | ⟨rfl, hnot, _⟩)
    · exact hu
    · exact absurd (hremote.mp hr) hnot
  · by_cases hv : neighbour.id ∈ visited
    · simp only [meet, hr, List.contains_iff_mem.mpr hv, if_true, Bool.false_eq_true, if_false]
      refine ⟨hgraph, fun u => ⟨.inl, ?_⟩⟩
      rintro (hu | ⟨rfl, _, hnot⟩)
      · exact hu
      · exact absurd hv hnot
    · have hnot : ¬ visited.contains neighbour.id = true := by simpa using hv
      simp only [meet, hr, hnot, Bool.false_eq_true, if_false]
      refine ⟨hgraph, fun u => ?_⟩
      simp only [List.mem_append, List.mem_singleton]
      constructor
      · rintro (hu | rfl)
        · exact .inl hu
        · exact .inr ⟨rfl, fun h => hr (hremote.mpr h), hv⟩
      · rintro (hu | ⟨rfl, _⟩)
        · exact .inl hu
        · exact .inr rfl

theorem adds_edges (x : Exploration) {edges : List Edge}
    (hends : ∀ e ∈ edges, e.child ∈ x.graph.vertexIds ∧ e.parent ∈ x.graph.vertexIds) :
    x.Adds { x with graph := edges.foldl MemoryGraph.addEdge x.graph } (fun _ => False)
      (fun i => ∃ e ∈ edges, i = e.id) (fun _ => False) :=
  ⟨MemoryGraph.adds_addEdges hends, by simp⟩

end Exploration

/-- What a source answers for the neighbours of a vertex are the vertices that it meets. -/
theorem Answers.meets_iff [RegexLibrary] (hsource : source.Answers vs es) {found : List Vertex}
    (hfound : ∀ x, x ∈ found ↔ x ∈ vs ∧ ∃ e ∈ es, e.near way = id ∧ e.far way = x.id) (u : String) :
    (∃ neighbour ∈ found, u = neighbour.id) ↔ Meets es way id u := by
  constructor
  · rintro ⟨neighbour, hn, rfl⟩
    exact ((hfound neighbour).mp hn).2
  · rintro ⟨e, he, hnear, rfl⟩
    obtain ⟨neighbour, hin, hfar⟩ := hsource.ends e he way
    exact ⟨neighbour, (hfound _).mpr ⟨hin, e, he, hnear, hfar.symm⟩, hfar.symm⟩

section Hop

variable [RegexLibrary] (hsource : source.Answers vs es) (hremote : ∀ x ∈ vs, isRemote x = true ↔ R x.id)

include hsource hremote

/-- A neighbour is added with the edges to it. -/
theorem exists_addNeighbour {neighbour : Vertex} (hid : id ∈ x.graph.vertexIds)
    (hneighbour : neighbour ∈ vs) :
    ∃ x', source.addNeighbour isRemote way depth visited id x neighbour = .ok x' ∧
      x.Adds x' (· = neighbour.id)
        (fun i => ∃ e ∈ es, e.near way = id ∧ e.far way = neighbour.id ∧ i = e.id)
        (fun u => u = neighbour.id ∧ ¬ R u ∧ u ∉ visited) := by
  let met := x.meet isRemote depth visited neighbour
  have hmet : x.Adds met _ _ _ := x.adds_meet depth visited (hremote neighbour hneighbour)
  obtain ⟨edges, hedges, hmem⟩ := hsource.edgesBetween (endpointsAlong way id neighbour.id).1
    (endpointsAlong way id neighbour.id).2
  have hfound (e : Edge) : e ∈ edges ↔ e ∈ es ∧ e.near way = id ∧ e.far way = neighbour.id := by
    rw [hmem, endpointsAlong_eq_iff]
  -- both ends of the edges are known by now
  have hknown (e : Edge) (he : e ∈ edges) :
      e.child ∈ met.graph.vertexIds ∧ e.parent ∈ met.graph.vertexIds := by
    have hnear : id ∈ met.graph.vertexIds := hmet.graph.keeps hid
    obtain ⟨_, rfl, hend⟩ := (hfound e).mp he
    have hfar : e.far way ∈ met.graph.vertexIds := (hmet.graph.vertices _).mpr (.inr hend)
    cases way with
    | ancestor => exact ⟨hnear, hfar⟩
    | descendant => exact ⟨hfar, hnear⟩
  refine ⟨{ met with graph := edges.foldl MemoryGraph.addEdge met.graph }, ?_, ?_⟩
  · simp only [addNeighbour]
    rw [hedges]
    rfl
  · refine (hmet.trans (met.adds_edges hknown)).congr (by simp) (fun i => ?_) (by simp)
    simp only [hfound, false_or, and_assoc]

/-- Expanding a vertex adds its neighbours and the edges to them. -/
theorem exists_expand (hid : id ∈ x.graph.vertexIds) :
    ∃ x', source.expand isRemote way depth visited x id = .ok x' ∧
      x.Adds x' (Meets es way id) (fun i => ∃ e ∈ es, e.near way = id ∧ i = e.id)
        (fun u => Meets es way id u ∧ ¬ R u ∧ u ∉ visited) := by
  obtain ⟨found, hfound, hmem⟩ := hsource.neighbours way id
  obtain ⟨x', hx', hadds⟩ := Exploration.Adds.foldlM
    (f := source.addNeighbour isRemote way depth visited id) (x := x) fun neighbour hn y hy =>
      exists_addNeighbour hsource hremote (hy id hid) ((hmem neighbour).mp hn).1
  have hmeets := hsource.meets_iff hmem
  refine ⟨x', by simp [expand, hfound, hx'], hadds.congr hmeets (fun i => ?_) fun u => ?_⟩
  · constructor
    · rintro ⟨_, _, e, he, hnear, _, rfl⟩
      exact ⟨e, he, hnear, rfl⟩
    · rintro ⟨e, he, hnear, rfl⟩
      obtain ⟨neighbour, hn, hfar⟩ := (hmeets _).mpr ⟨e, he, hnear, rfl⟩
      exact ⟨neighbour, hn, e, he, hnear, hfar, rfl⟩
  · rw [← hmeets]
    constructor
    · rintro ⟨neighbour, hn, hu, hnew⟩
      exact ⟨⟨neighbour, hn, hu⟩, hnew⟩
    · rintro ⟨⟨neighbour, hn, hu⟩, hnew⟩
      exact ⟨neighbour, hn, hu, hnew⟩

end Hop

/-! ## Hops -/

/-- The graph has the vertices of the first layers and the edges that leave all but the last. -/
structure Explored (es : List Edge) (R : String → Prop) (way : Way) (S : String → Prop) (i : Nat)
    (g : MemoryGraph) : Prop where
  vertices : ∀ u, u ∈ g.vertexIds ↔ Within (Expands es R way) S i u
  edges : ∀ j, j ∈ g.edgeIds ↔ ∃ e ∈ es, e.id = j ∧ ¬ R (e.near way) ∧
    ∃ n < i, Within (Expands es R way) S n (e.near way)
  wellFormed : g.WellFormed

/-- What is known before hop `i`: the last layer remains to be expanded, those before it were. -/
structure HopsSoFar (es : List Edge) (R : String → Prop) (way : Way) (S : String → Prop) (i : Nat)
    (remaining visited : List String) (g : MemoryGraph) : Prop
    extends Explored es R way S i g where
  remaining : ∀ u, u ∈ remaining ↔ At (Expands es R way) S i u ∧ ¬ R u
  visited : ∀ u, u ∈ visited ↔ (∃ j < i, At (Expands es R way) S j u) ∧ ¬ R u

theorem mem_sortedIds {ids : List String} : id ∈ sortedIds ids ↔ id ∈ ids := by
  simp [sortedIds]

namespace HopsSoFar

/-- With nothing left to expand, no later layer has any vertex. -/
theorem rest (h : HopsSoFar es R way S i [] visited g) :
    HopsSoFar es R way S (i + 1) [] visited g := by
  have hnone (u : String) : ¬ (At (Expands es R way) S i u ∧ ¬ R u) := by
    simpa using h.remaining u
  have hempty (u : String) : ¬ At (Expands es R way) S (i + 1) u := by
    intro hat
    obtain ⟨p, hp, hR, _⟩ := hat.exists_pred
    exact hnone p ⟨hp, hR⟩
  have hwithin (u : String) :
      Within (Expands es R way) S (i + 1) u ↔ Within (Expands es R way) S i u := by
    refine ⟨fun hw => ?_, .mono (by omega)⟩
    obtain ⟨m, hm, hat⟩ := hw.exists_at
    rcases Nat.le_succ_iff.mp hm with hm | rfl
    · exact hat.1.mono hm
    · exact absurd hat (hempty u)
  refine ⟨⟨fun u => by rw [h.vertices, hwithin], fun j => ?_, h.wellFormed⟩, fun u => ?_,
    fun u => ?_⟩
  · rw [h.edges]
    constructor
    · rintro ⟨e, he, hid, hR, n, hn, hw⟩
      exact ⟨e, he, hid, hR, n, by omega, hw⟩
    · rintro ⟨e, he, hid, hR, n, hn, hw⟩
      -- what is not remote was met in some layer before the last
      obtain ⟨m, hm, hat⟩ := hw.exists_at
      have hne : m ≠ i := fun heq => hnone _ ⟨heq ▸ hat, hR⟩
      exact ⟨e, he, hid, hR, m, by omega, hat.1⟩
  · simp [hempty]
  · rw [h.visited]
    constructor
    · rintro ⟨⟨j, hj, hat⟩, hR⟩
      exact ⟨⟨j, by omega, hat⟩, hR⟩
    · rintro ⟨⟨j, hj, hat⟩, hR⟩
      have hne : j ≠ i := fun heq => hnone _ ⟨heq ▸ hat, hR⟩
      exact ⟨⟨j, by omega, hat⟩, hR⟩

theorem explored_of_rest (h : HopsSoFar es R way S i [] visited g) (n : Nat) :
    Explored es R way S (i + n) g := by
  induction n generalizing i with
  | zero => exact h.toExplored
  | succ n ih =>
    have hcount : i + (n + 1) = i + 1 + n := by omega
    exact hcount ▸ ih h.rest

/-- With the last layer expanded, all layers so far are visited. -/
theorem mem_visited_next (h : HopsSoFar es R way S i remaining visited g) (u : String) :
    u ∈ visited ++ remaining ↔ (∃ j < i + 1, At (Expands es R way) S j u) ∧ ¬ R u := by
  rw [List.mem_append, h.visited, h.remaining, ← or_and_right]
  refine and_congr_left fun _ => ⟨?_, ?_⟩
  · rintro (⟨j, hj, hat⟩ | hat)
    · exact ⟨j, by omega, hat⟩
    · exact ⟨i, by omega, hat⟩
  · rintro ⟨j, hj, hat⟩
    rcases Nat.lt_succ_iff_lt_or_eq.mp hj with hj | rfl
    · exact .inl ⟨j, hj, hat⟩
    · exact .inr hat

/-- A step from the last layer to where no layer was yet leads to the next one. -/
theorem meets_new_iff (h : HopsSoFar es R way S i remaining visited g) (u : String) :
    (∃ p ∈ remaining, Meets es way p u ∧ ¬ R u ∧ u ∉ visited ++ remaining) ↔
      At (Expands es R way) S (i + 1) u ∧ ¬ R u := by
  constructor
  · rintro ⟨p, hp, hmeets, hR, hnew⟩
    obtain ⟨hat, hRp⟩ := (h.remaining p).mp hp
    refine ⟨hat.succ_of_step ⟨hRp, hmeets⟩ fun hw => ?_, hR⟩
    obtain ⟨m, hm, hat'⟩ := hw.exists_at
    exact hnew ((h.mem_visited_next u).mpr ⟨⟨m, by omega, hat'⟩, hR⟩)
  · rintro ⟨hat, hR⟩
    obtain ⟨p, hp, hRp, hmeets⟩ := hat.exists_pred
    refine ⟨p, (h.remaining p).mpr ⟨hp, hRp⟩, hmeets, hR, fun hin => ?_⟩
    obtain ⟨⟨j, hj, hat'⟩, _⟩ := (h.mem_visited_next u).mp hin
    exact absurd (hat.unique hat') (by omega)

/-- With what the last layer meets, the graph has the first layers and the next. -/
theorem explored_next (h : HopsSoFar es R way S i remaining visited g) {g' : MemoryGraph}
    (hadds : g.Adds g' (fun u => ∃ p ∈ remaining, Meets es way p u)
      (fun j => ∃ p ∈ remaining, ∃ e ∈ es, e.near way = p ∧ j = e.id)) :
    Explored es R way S (i + 1) g' := by
  refine ⟨fun u => ?_, fun j => ?_, hadds.wellFormed h.wellFormed⟩
  · rw [hadds.vertices, h.vertices]
    constructor
    · rintro (hw | ⟨p, hp, hmeets⟩)
      · exact hw.mono (by omega)
      · obtain ⟨hat, hRp⟩ := (h.remaining p).mp hp
        exact hat.1.snoc ⟨hRp, hmeets⟩
    · intro hw
      obtain ⟨m, hm, hat⟩ := hw.exists_at
      rcases Nat.le_succ_iff.mp hm with hm | rfl
      · exact .inl (hat.1.mono hm)
      · obtain ⟨p, hp, hRp, hmeets⟩ := hat.exists_pred
        exact .inr ⟨p, (h.remaining p).mpr ⟨hp, hRp⟩, hmeets⟩
  · rw [hadds.edges, h.edges]
    constructor
    · rintro (⟨e, he, hid, hR, n, hn, hw⟩ | ⟨p, hp, e, he, rfl, rfl⟩)
      · exact ⟨e, he, hid, hR, n, by omega, hw⟩
      · obtain ⟨hat, hRp⟩ := (h.remaining _).mp hp
        exact ⟨e, he, rfl, hRp, i, by omega, hat.1⟩
    · rintro ⟨e, he, rfl, hR, n, hn, hw⟩
      obtain ⟨m, hm, hat⟩ := hw.exists_at
      by_cases hlast : m = i
      · subst hlast
        exact .inr ⟨_, (h.remaining _).mpr ⟨hat, hR⟩, e, he, rfl, rfl⟩
      · exact .inl ⟨e, he, rfl, hR, m, by omega, hat.1⟩

/-- A hop leads to the next layer. -/
theorem step [RegexLibrary] (hsource : source.Answers vs es) (hremote : ∀ x ∈ vs, isRemote x = true ↔ R x.id)
    (h : HopsSoFar es R way S i remaining visited g) (depth : Int) :
    ∃ x, remaining.foldlM (source.expand isRemote way depth (visited ++ remaining)) ⟨g, []⟩ =
        .ok x ∧
      HopsSoFar es R way S (i + 1) (sortedIds x.frontier) (visited ++ remaining) x.graph := by
  have hknown (u : String) (hu : u ∈ remaining) : u ∈ g.vertexIds :=
    (h.vertices u).mpr ((h.remaining u).mp hu).1.1
  obtain ⟨x, hx, hadds⟩ := Exploration.Adds.foldlM
    (f := source.expand isRemote way depth (visited ++ remaining)) (x := ⟨g, []⟩) fun u hu y hy =>
      exists_expand hsource hremote (hy u (hknown u hu))
  refine ⟨x, hx, h.explored_next hadds.graph, fun u => ?_, h.mem_visited_next⟩
  rw [mem_sortedIds, hadds.frontier, ← h.meets_new_iff]
  simp

/-- All hops lead as many layers on, or to the last one. -/
theorem exists_hops [RegexLibrary] (hsource : source.Answers vs es)
    (hremote : ∀ x ∈ vs, isRemote x = true ↔ R x.id)
    (h : HopsSoFar es R way S i remaining visited g) (n : Nat) (depth : Int) :
    ∃ g', source.hops isRemote way n depth remaining visited g = .ok g' ∧
      Explored es R way S (i + n) g' := by
  induction n generalizing i remaining visited g depth with
  | zero => exact ⟨g, rfl, h.toExplored⟩
  | succ n ih =>
    cases remaining with
    | nil => exact ⟨g, rfl, h.explored_of_rest (n + 1)⟩
    | cons u us =>
      obtain ⟨x, hx, hnext⟩ := h.step hsource hremote depth
      obtain ⟨g', hg', hexplored⟩ := ih hnext (depth + 1)
      have hcount : i + (n + 1) = i + 1 + n := by omega
      refine ⟨g', ?_, hcount ▸ hexplored⟩
      simp only [hops, List.isEmpty_cons, Bool.false_eq_true, if_false]
      rw [hx]
      exact hg'

end HopsSoFar

/-! ## Lineage -/

section Lineage

variable {start : List Vertex} {k : Nat}

/-- The ids of the vertices that an exploration begins with. -/
def Starts (start : List Vertex) (u : String) : Prop := ∃ v ∈ start, v.id = u

theorem adds_seeded (isRemote : Vertex → Bool) (start : List Vertex) (maxDepth : Int) :
    (MemoryGraph.empty (some maxDepth)).Adds (seeded isRemote start maxDepth) (Starts start)
      (fun _ => False) := by
  let rooted : MemoryGraph :=
    { MemoryGraph.empty (some maxDepth) with root := start.head?.map Vertex.id }
  have hstart (v : Vertex) (g : MemoryGraph) :
      g.Adds (let g := g.addVertex v (some 0); if isRemote v then g.putNetwork v 0 else g)
        (· = v.id) (fun _ => False) := by
    have hadd := g.adds_addVertex v (some 0)
    by_cases hv : isRemote v = true
    · simp only [hv, if_true]
      exact (hadd.trans (MemoryGraph.adds_putNetwork _ v 0)).congr (by simp) (by simp)
    · simpa only [hv, Bool.false_eq_true, if_false] using hadd
  have hrooted : (MemoryGraph.empty (some maxDepth)).Adds rooted _ _ :=
    (MemoryGraph.Adds.refl _).same rfl rfl rfl
  have hall : rooted.Adds (seeded isRemote start maxDepth) (fun u => ∃ v ∈ start, u = v.id)
      (fun _ => ∃ v ∈ start, False) :=
    .foldl fun v _ g _ => hstart v g
  exact (hrooted.trans hall).congr (fun u => by simp [Starts, eq_comm]) (by simp)

/-- The ids that an exploration expands first. -/
def expandable (isRemote : Vertex → Bool) (start : List Vertex) : List String :=
  sortedIds ((start.filter fun v => !isRemote v).map (·.id))

/-- Before the first hop only the start vertices are known. -/
theorem hopsSoFar_seeded (hstart : ∀ x ∈ start, isRemote x = true ↔ R x.id) (k : Nat) :
    HopsSoFar es R way (Starts start) 0 (expandable isRemote start) []
      (seeded isRemote start k) := by
  have hseeded := adds_seeded isRemote start k
  refine ⟨⟨fun u => ?_, fun j => ?_, hseeded.wellFormed (MemoryGraph.wellFormed_empty _)⟩,
    fun u => ?_, by simp⟩
  · rw [hseeded.vertices, Within.zero_iff]
    simp [MemoryGraph.vertexIds, MemoryGraph.empty]
  · rw [hseeded.edges]
    simp [MemoryGraph.edgeIds, MemoryGraph.empty]
  · rw [expandable, mem_sortedIds, At.zero_iff]
    simp only [Starts, List.mem_map, List.mem_filter, Bool.not_eq_true']
    constructor
    · rintro ⟨v, ⟨hv, hr⟩, rfl⟩
      exact ⟨⟨v, hv, rfl⟩, fun hR => by simp [(hstart v hv).mpr hR] at hr⟩
    · rintro ⟨⟨v, hv, rfl⟩, hR⟩
      exact ⟨v, ⟨hv, by simpa using fun hr => hR ((hstart v hv).mp hr)⟩, rfl⟩

variable [RegexLibrary] (hsource : source.Answers vs es) (hremote : ∀ x ∈ vs, isRemote x = true ↔ R x.id)
  (hstart : ∀ x ∈ start, isRemote x = true ↔ R x.id)

include hsource hremote hstart

theorem exists_traverse (k : Nat) (way : Way) :
    ∃ g, source.traverse isRemote start k way = .ok g ∧
      Explored es R way (Starts start) k g := by
  obtain ⟨g, hg, hexplored⟩ := (hopsSoFar_seeded hstart k).exists_hops hsource hremote k 0
  exact ⟨g, hg, Nat.zero_add k ▸ hexplored⟩

/-- The ways one after the other add the vertices of the first layers along each of them, and the
edges that leave all but the last. -/
theorem exists_ways (k : Nat) (ways : List Way) (g : MemoryGraph) :
    ∃ g', ways.foldlM (fun (g : MemoryGraph) way =>
        return g.merge (← source.traverse isRemote start k way)) g = .ok g' ∧
      g.Adds g' (fun u => ∃ way ∈ ways, Within (Expands es R way) (Starts start) k u)
        (fun j => ∃ way ∈ ways, ∃ e ∈ es, e.id = j ∧ ¬ R (e.near way) ∧
          ∃ n < k, Within (Expands es R way) (Starts start) n (e.near way)) := by
  induction ways generalizing g with
  | nil => exact ⟨g, rfl, (MemoryGraph.Adds.refl g).congr (by simp) (by simp)⟩
  | cons way ways ih =>
    obtain ⟨found, hrun, hexplored⟩ := exists_traverse hsource hremote hstart k way
    have hmerge :=
      (MemoryGraph.adds_merge g hexplored.wellFormed).congr hexplored.vertices hexplored.edges
    obtain ⟨g', hg', hrest⟩ := ih (g.merge found)
    refine ⟨g', by simpa [hrun] using hg', (hmerge.trans hrest).congr (fun u => ?_) fun j => ?_⟩
    · rw [List.exists_mem_cons_iff]
    · rw [List.exists_mem_cons_iff]

/-- A lineage search vertex by vertex succeeds where it has a start, and finds the vertices of the
first layers along each way, and the edges that leave all but the last. -/
theorem exists_lineage {ps : List Predicate} (hfound : source.vertices ps = .ok start)
    (hsome : start ≠ []) (k : Nat) (direction : Direction) :
    ∃ g, source.lineage isRemote ps k direction = .ok g ∧
      (∀ u, u ∈ g.vertexIds ↔
        ∃ way ∈ direction.ways, Within (Expands es R way) (Starts start) k u) ∧
      ∀ j, j ∈ g.edgeIds ↔ ∃ way ∈ direction.ways, ∃ e ∈ es, e.id = j ∧ ¬ R (e.near way) ∧
        ∃ n < k, Within (Expands es R way) (Starts start) n (e.near way) := by
  obtain ⟨g, hg, hadds⟩ := exists_ways hsource hremote hstart k direction.ways
    { MemoryGraph.empty (some (k : Int)) with root := start.head?.map (·.id) }
  have hdepth : ¬ (k : Int) < 0 := by omega
  refine ⟨g.markComputed, ?_, fun u => ?_, fun j => ?_⟩
  · simp only [lineage, hdepth, if_false, hfound, ok_bind, List.isEmpty_iff, hsome]
    exact congrArg (· >>= fun g : MemoryGraph => pure g.markComputed) hg
  · exact (hadds.vertices u).trans (by simp [MemoryGraph.vertexIds, MemoryGraph.empty])
  · exact (hadds.edges j).trans (by simp [MemoryGraph.edgeIds, MemoryGraph.empty])

end Lineage
end Provenance.Source
