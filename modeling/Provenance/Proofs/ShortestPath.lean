-- SUMMARY: The vertices that a search for short paths visits, and when it arrives.
import Provenance.Proofs.SimplePath
import Provenance.Proofs.TaggedSearch
import Provenance.Proofs.SmallWorlds
import Mathlib.Logic.Relation
import Mathlib.Order.WellFounded

/-!
# Short paths

The second search leaves each vertex by its picks and never comes back to a vertex that it has
visited. A vertex that is no destination always has a pick, so a path from a source can only fail to
arrive by running into a cycle: it arrives exactly when some walk through visited vertices does, and
always when every cycle of edges within the budget passes a destination.
-/
namespace Provenance

namespace Shortest

/-- The vertices that the second search visits. -/
def Visited (merged : Bool) (E : Arc → Prop) (S D : Value → Prop) (m : Nat) (v : Value) : Prop :=
  ∃ i ≤ m, FirstAt (Picks merged E D m) (fun v => S v ∧ Within (Leads E .descendant) D m v) i v

/-- Some walk through visited vertices arrives at a destination. -/
def Arrives (merged : Bool) (E : Arc → Prop) (S D : Value → Prop) (m : Nat) (u : Value) : Prop :=
  ∃ n d, D d ∧ Walk (fun v w => Leads E .ancestor v w ∧ Visited merged E S D m w) n u d

/-- At step `i` the vertex can be reached, and the budget is left to get on to a destination. -/
def Room (E : Arc → Prop) (S D : Value → Prop) (m i : Nat) (v : Value) : Prop :=
  Within (Leads E .ancestor) S i v ∧ ∃ j, i + j ≤ m ∧ Within (Leads E .descendant) D j v

/-- An edge within the budget that leaves a vertex that is no destination. -/
def Detour (E : Arc → Prop) (S D : Value → Prop) (m : Nat) (u v : Value) : Prop :=
  ¬ D u ∧ ∃ a, E a ∧ a.child = u ∧ a.parent = v ∧ TakenByWalk E S D m a

section Visited

variable {merged : Bool} {E : Arc → Prop} {S D : Value → Prop} {m : Nat} {u v : Value}

theorem Room.onWalk {i : Nat} (h : Room E S D m i v) : OnWalk E S D m v := by
  obtain ⟨hi, j, hm, hj⟩ := h
  exact onWalk_iff.mpr ⟨i, j, hm, hi, hj⟩

/-- A vertex that is possible next keeps within the budget. -/
theorem Room.succ {i : Nat} {tag : Value} (hu : Room E S D m i u)
    (hv : Fits merged E D m i u tag v) : Room E S D m (i + 1) v := by
  obtain ⟨hlead, j, hj, htag⟩ := hv
  exact ⟨hu.1.snoc hlead, j, by omega, htag.1.1⟩

/-- Where a vertex is visited first, the budget is left to get to a destination. -/
theorem FirstAt.room {i : Nat}
    (h : FirstAt (Picks merged E D m) (fun v => S v ∧ Within (Leads E .descendant) D m v) i v) :
    Room E S D m i v := by
  induction i generalizing v with
  | zero =>
    obtain ⟨hs, hw⟩ := firstAt_zero_iff.mp h
    exact ⟨Within.zero_iff.mpr hs, m, by omega, hw⟩
  | succ i ih =>
    obtain ⟨⟨u, hu, tag, hv, _⟩, _⟩ := firstAt_succ_iff.mp h
    exact (ih hu).succ hv

theorem visited_of_source (hS : S u) (hw : Within (Leads E .descendant) D m u) :
    Visited merged E S D m u :=
  ⟨0, Nat.zero_le m, firstAt_zero_iff.mpr ⟨hS, hw⟩⟩

theorem Visited.within (h : Visited merged E S D m v) : ∃ i, Within (Leads E .ancestor) S i v := by
  obtain ⟨i, _, h⟩ := h
  exact ⟨i, h.room.1⟩

/-- A visited vertex that is no destination is left by an edge within the budget, to a visited
one. -/
theorem Visited.exists_next {arcs : List Arc} {S D : Value → Prop}
    (hordered : OrderedParents (· ∈ arcs)) (h : Visited merged (· ∈ arcs) S D m u) (hu : ¬ D u) :
    ∃ v, Detour (· ∈ arcs) S D m u v ∧ Leads (· ∈ arcs) .ancestor u v ∧
      Visited merged (· ∈ arcs) S D m v := by
  obtain ⟨i, hi, hfirst⟩ := h
  obtain ⟨hwithin, j, hj, hw⟩ := hfirst.room
  -- a shortest walk to a destination goes on to a vertex that is possible
  have hfits : ∃ tag p, Fits merged (· ∈ arcs) D m i u tag p := by
    obtain ⟨k, hk, hat⟩ := hw.exists_at
    cases k with
    | zero => exact absurd (At.zero_iff.mp hat) hu
    | succ k =>
      obtain ⟨p, hp, hs⟩ := hat.exists_pred
      obtain ⟨tag, htag⟩ := exists_tagAt merged hp
      exact ⟨tag, p, leads_descendant_iff.mp hs, k, by omega, htag⟩
  obtain ⟨tag, p, hp⟩ := hfits
  have hfin (w : Value) (hw : Fits merged (· ∈ arcs) D m i u tag w) :
      w ≠ .null ∧ w ∈ arcs.map (·.parent) := by
    obtain ⟨a, ha, _, hfar, _⟩ := hw.1
    exact ⟨hw.ne_null, List.mem_map.mpr ⟨a, ha, hfar⟩⟩
  -- the least vertex that is possible is picked, unless it was visited before
  obtain ⟨v, hv⟩ := (ordered_fits hordered).exists_isLeast hfin hp
  obtain ⟨hlead, j, hj, htag⟩ := hv.1
  have hvisited : Visited merged (· ∈ arcs) S D m v := by
    by_cases hseen : ∃ k ≤ i, FirstAt (Picks merged (· ∈ arcs) D m)
        (fun v => S v ∧ Within (Leads (· ∈ arcs) .descendant) D m v) k v
    · obtain ⟨k, hk, hat⟩ := hseen
      exact ⟨k, by omega, hat⟩
    · refine ⟨i + 1, by omega, firstAt_succ_iff.mpr ⟨⟨u, hfirst, tag, hv⟩, fun k hk hat => ?_⟩⟩
      exact hseen ⟨k, hk, hat⟩
  -- the edge that is picked is taken by a walk over the steps so far
  refine ⟨v, ⟨hu, ?_⟩, hlead, hvisited⟩
  obtain ⟨a, ha, rfl, rfl, _⟩ := hlead
  exact ⟨a, ha, rfl, rfl, takenByWalk_iff.mpr ⟨i, j, by omega, hwithin, htag.1.1⟩⟩

theorem Visited.mem {arcs : List Arc} {S : List Value}
    (h : Visited merged (· ∈ arcs) (· ∈ S) D m v) : v ∈ S ++ arcs.map (·.parent) := by
  obtain ⟨i, _, h⟩ := h
  cases i with
  | zero => exact List.mem_append_left _ (firstAt_zero_iff.mp h).1
  | succ i =>
    obtain ⟨⟨_, _, _, ⟨⟨a, ha, _, hfar, _⟩, _⟩, _⟩, _⟩ := firstAt_succ_iff.mp h
    exact List.mem_append_right _ (List.mem_map.mpr ⟨a, ha, hfar⟩)

/-- Without a cycle of detours every visited vertex leads to a destination. -/
theorem Visited.arrives {arcs : List Arc} {S : List Value} (hordered : OrderedParents (· ∈ arcs))
    (hacyclic : ∀ v, ¬ Relation.TransGen (Detour (· ∈ arcs) (· ∈ S) D m) v v)
    (h : Visited merged (· ∈ arcs) (· ∈ S) D m u) : Arrives merged (· ∈ arcs) (· ∈ S) D m u := by
  let Place := { v // v ∈ S ++ arcs.map (·.parent) }
  let after (b a : Place) : Prop := Relation.TransGen (Detour (· ∈ arcs) (· ∈ S) D m) a.1 b.1
  -- detours cannot go on without end among finitely many vertices
  have hwf : WellFounded after := by
    have : Finite Place := List.finite_toSet _
    have : IsTrans Place after := ⟨fun _ _ _ hab hbc => hbc.trans hab⟩
    have : Std.Irrefl after := ⟨fun v => hacyclic v.1⟩
    exact Finite.wellFounded_of_trans_of_irrefl after
  suffices hall : ∀ v : Place, Visited merged (· ∈ arcs) (· ∈ S) D m v.1 →
      Arrives merged (· ∈ arcs) (· ∈ S) D m v.1 from hall ⟨u, h.mem⟩ h
  intro v
  induction v using hwf.induction with
  | _ v ih =>
    intro hv
    by_cases hD : D v.1
    · exact ⟨0, v.1, hD, .nil v.1⟩
    · obtain ⟨w, hdetour, hlead, hw⟩ := hv.exists_next hordered hD
      obtain ⟨n, d, hd, hwalk⟩ := ih ⟨w, hw.mem⟩ (.single hdetour) hw
      exact ⟨n + 1, d, hd, .cons ⟨hlead, hw⟩ hwalk⟩

end Visited

/-! ## Without an order -/

section Room

variable {merged : Bool} {arcs : List Arc} {S D : List Value} {m : Nat}

variable (merged) in
/-- What is chosen next has kept within the budget, if what is current has. -/
theorem room_of_mem_onward (hD : .null ∉ D) {i : Nat} {f : Frontier}
    (hf : ∀ v ∈ f.current, Room (· ∈ arcs) (· ∈ S) (· ∈ D) m i v) :
    ∀ v ∈ (onward merged arcs D m i f).current,
      Room (· ∈ arcs) (· ∈ S) (· ∈ D) m (i + 1) v := by
  intro v hv
  obtain ⟨h, hh, rfl⟩ := exists_hop_of_mem_choices (mem_choices_of_mem_onward hv)
  obtain ⟨hcurrent, hfits⟩ := of_mem_fitting hD hh
  exact (hf _ hcurrent).succ hfits

/-- The second search begins where the whole budget is left. -/
theorem room_of_mem_sources {among : List Value → List Value} (hD : .null ∉ D)
    (hamong : SourcesAmong among S (back merged (connections arcs) m 1 (.start D)).reached) :
    ∀ v ∈ Value.groups (among (back merged (connections arcs) m 1 (.start D)).reached),
      Room (· ∈ arcs) (· ∈ S) (· ∈ D) m 0 v := by
  intro v hv
  obtain ⟨hS, hw⟩ := (hamong v).mp (Value.mem_groups.mp hv)
  exact ⟨Within.zero_iff.mpr hS, m, by omega, (mem_reached_back hD v).mp hw⟩

theorem steady_room (hD : .null ∉ D) :
    Steady (onward merged arcs D m) (fun f => f.current.isEmpty)
      fun i f => (∀ v ∈ f.current, Room (· ∈ arcs) (· ∈ S) (· ∈ D) m i v) ∧
        ∀ v ∈ f.reached, OnWalk (· ∈ arcs) (· ∈ S) (· ∈ D) m v where
  step := by
    intro i f hf
    have hroom := room_of_mem_onward merged hD hf.1
    refine ⟨hroom, fun v hv => ?_⟩
    rcases List.mem_append.mp hv with hv | hv
    · exact hf.2 v hv
    · exact (hroom v hv).onWalk
  rest := by
    intro i f hf hidle
    have hnone : f.current = [] := List.isEmpty_iff.mp hidle
    exact ⟨by simp [hnone], hf.2⟩

/-- Whichever parents count as least, the vertices left are passed by walks within the budget. -/
theorem onWalk_of_mem_vertices {among : List Value → List Value} (hD : .null ∉ D)
    (hamong : SourcesAmong among S (back merged (connections arcs) m 1 (.start D)).reached)
    {v : Value} (hv : v ∈ vertices merged arcs among D m) :
    OnWalk (· ∈ arcs) (· ∈ S) (· ∈ D) m v := by
  have hroom := room_of_mem_sources hD hamong
  obtain ⟨f, h, hf⟩ := exists_reached_eq_vertices (steady_room hD)
    ⟨hroom, fun v hv => (hroom v hv).onWalk⟩
  exact h.2 v (hf ▸ hv)

/-- A source from which the first search was reached is left by the second as well. -/
theorem mem_vertices_of_source {among : List Value → List Value} (hD : .null ∉ D)
    (hamong : SourcesAmong among S (back merged (connections arcs) m 1 (.start D)).reached)
    {v : Value} (hS : v ∈ S) (hw : Within (Leads (· ∈ arcs) .descendant) (· ∈ D) m v) :
    v ∈ vertices merged arcs among D m := by
  rw [vertices_eq_sweep]
  apply Frontier.mem_reached_sweep_of_mem
  exact Value.mem_groups.mpr ((hamong v).mpr ⟨hS, (mem_reached_back hD v).mpr hw⟩)

end Room
end Shortest

/-! ## The instruction -/

namespace Environment

open Shortest

variable {env : Environment} {s : Store} {target : String} {tables : TablePair}
  {subject src dst : GraphRef} {es S D : List Value}

/-- The column of tags is the column of ids. -/
def tagsMerged (env : Environment) : Bool := env.schema.idColumn = "reaching"

/-- The table of tags can be created: its two columns are one, or their names differ. -/
def CanTag (env : Environment) : Prop :=
  env.schema.idColumn = "reaching" ∨ Name.folded env.schema.idColumn ≠ Name.folded "reaching"

theorem allDistinct_tagColumns (h : env.CanTag) :
    Name.allDistinct [env.schema.idColumn, "reaching"].eraseDups = true := by
  cases h with
  | inl h =>
    simp [h, Name.allDistinct, List.eraseDups_cons]
  | inr h =>
    have hne : env.schema.idColumn ≠ "reaching" := fun he => h (he ▸ rfl)
    simp [Name.allDistinct, List.eraseDups_cons, hne.symm, Ne.symm h]

theorem length_tagColumns :
    decide ([env.schema.idColumn, "reaching"].eraseDups.length = 1) = env.tagsMerged := by
  unfold tagsMerged
  by_cases h : env.schema.idColumn = "reaching"
  · simp [h, List.eraseDups_cons]
  · simp [h, Ne.symm h, List.eraseDups_cons]

theorem not_allDistinct_tagColumns (h : ¬ env.CanTag) :
    Name.allDistinct [env.schema.idColumn, "reaching"].eraseDups = false := by
  obtain ⟨hne, hsame⟩ : env.schema.idColumn ≠ "reaching" ∧
      Name.folded env.schema.idColumn = Name.folded "reaching" := by
    simpa [CanTag] using h
  simp [Name.allDistinct, List.eraseDups_cons, hne.symm, hsame]

/-- Where the table of tags cannot be created the search fails. -/
theorem canTag_of_wp {target subject src dst : GraphRef} {m : Nat} {Q : Unit → Store → Prop}
    (h : (env.shortestPath target subject src dst m).wp Q s) : env.CanTag := by
  by_contra htags
  -- were the run a success, so would be the statement that creates the table
  obtain ⟨_, _, h, _⟩ := h
  have hdepth : ¬ (m : Int) < 0 := by omega
  unfold shortestPath Program.withScratch at h
  obtain ⟨_, _, _, h⟩ := Program.perform_bind_eq_ok h
  simp only [hdepth, if_false, not_allDistinct_tagColumns htags, Bool.not_false, if_true] at h
  obtain ⟨_, _, _, h⟩ := Program.perform_bind_eq_ok h
  obtain ⟨_, _, _, h⟩ := Program.perform_bind_eq_ok h
  obtain ⟨_, _, h, _⟩ := Program.perform_bind_eq_ok h
  obtain ⟨_, _, _, h⟩ := Program.perform_bind_eq_ok h
  obtain ⟨_, _, _, h⟩ := Program.perform_bind_eq_ok h
  obtain ⟨_, _, _, h⟩ := Program.perform_bind_eq_ok h
  obtain ⟨_, _, h, _⟩ := Program.perform_bind_eq_ok h
  cases congrArg Prod.fst h

/-- Texts are told apart by their order. -/
theorem HasEdgeTable.orderedParents {db : Database} {g : GraphRef} (ht : env.HasEdgeTable db)
    (htext : env.schema.idAffinity = .text) : OrderedParents (env.HasEdge db g) := by
  apply Value.ordered_of_texts
  intro v hv
  obtain ⟨hnull, a, ha, rfl⟩ := hv
  have hkeeps := ha.keeps ht a.parent (by simp)
  rw [htext] at hkeeps
  exact Affinity.exists_text hkeeps hnull

/-- The instruction leaves what both searches find, and all edges between. -/
theorem takes_shortestPath (hscratch : s.CanScratch)
    (htarget : env.Fresh s.database target tables) (hedges : env.HasEdgeTable s.database)
    (hsubject : env.Holds s.database subject .edge es)
    (hsrc : env.Holds s.database src .vertex S) (hdst : env.Holds s.database dst .vertex D)
    (hS : .null ∉ S) (hD : .null ∉ D) (htags : env.CanTag) (m : Nat) :
    (env.shortestPath (.named target) subject src dst m).takes m
      (fun s' => ∃ arcs among, (∀ a, a ∈ arcs ↔ env.HasEdge s.database subject a) ∧
        SourcesAmong among S
          (back env.tagsMerged (connections arcs) m 1 (.start D)).reached ∧
        let found := vertices env.tagsMerged arcs among D m
        env.schema.ListsOnce s'.database tables.vertices (· ∈ found) ∧
        env.schema.ListsOnce s'.database tables.edges
          (fun id => ∃ a, env.HasEdge s.database subject a ∧ a.id = id ∧
            a.child ∈ found ∧ a.parent ∈ found) ∧
        Database.SameBut [tables.vertices, tables.edges] s.database s'.database) s := by
  obtain ⟨paths, hpaths, hscope, hsources, hdestinations⟩ := exists_pathTables hsubject hsrc hdst
  -- the edges are read whatever the budget, so no case without steps is needed
  obtain ⟨arcs, harcs, hmem⟩ := exists_arcs hedges hsubject hscope
  have hdepth : ¬ (m : Int) < 0 := by omega
  unfold shortestPath
  refine .bind (.ofExcept htarget.resolves ?_)
  simp only [hdepth, if_false, Int.toNat_natCast, allDistinct_tagColumns htags, Bool.not_true,
    Bool.false_eq_true, length_tagColumns]
  refine .bind (.ofExcept hpaths (.withScratch fun request s₁ hs₁ => ?_))
  refine .bind (.createScratch (hs₁.canScratch hscratch) (by decide) fun s₂ hs₂ => ?_)
  have hs₂ := hs₁.trans hs₂
  refine .bind (.query (hs₂.database ▸ harcs) (.bind (.createScratch (hs₂.canScratch hscratch)
    (by decide) fun s₃ hs₃ => ?_)))
  have hs₃ := hs₂.trans hs₃
  refine .bind (.createScratches (hs₃.canScratch hscratch) (by decide) fun s₄ hs₄ => ?_)
  have hs₄ := hs₃.trans hs₄
  refine .bind (.seeds (hs₄.database ▸ hdestinations) (.bind (.createScratches
    (hs₄.canScratch hscratch) (by decide) fun s₅ hs₅ => ?_)))
  have hdata : s₅.database = s.database := (hs₄.trans hs₅).database
  refine .bind (.seedsAmong (hdata ▸ hsources) hS fun among hamong => .test hdata fun _ => ?_)
  have hkeeps : env.schema.idAffinity.Keeps
      (back env.tagsMerged (connections arcs) m 1 (.start D)).reached := by
    intro v hv
    have hw := (mem_reached_back hD v).mp hv
    rw [← leadsAny_singleton] at hw
    exact hedges.keeps_of_within (fun a => (hmem a).mp) hdst.keeps hw
  have hsome := hamong _ hkeeps
  have hfrom {v : Value} (hv : v ∈ vertices env.tagsMerged arcs among D m) :
      ∃ i, Within (Leads (· ∈ arcs) .ancestor) (· ∈ S) i v := by
    obtain ⟨i, _, _, hw, _⟩ := onWalk_iff.mp (onWalk_of_mem_vertices hD hsome hv)
    exact ⟨i, hw⟩
  have hfound : env.schema.idAffinity.Keeps (vertices env.tagsMerged arcs among D m) := by
    intro v hv
    obtain ⟨i, hw⟩ := hfrom hv
    rw [← leadsAny_singleton] at hw
    exact hedges.keeps_of_within (fun a => (hmem a).mp) hsrc.keeps hw
  have hnull : .null ∉ vertices env.tagsMerged arcs among D m := by
    intro hv
    obtain ⟨i, hw⟩ := hfrom hv
    exact hw.ne_null (fun _ _ => Leads.ne_null) hS rfl
  -- what both searches find is written to the target, with all edges between
  refine .insertInduced (hdata ▸ htarget) (hdata ▸ hedges) (hdata ▸ hsubject) hscope hfound hnull
    fun db hv he hs s₆ hs₆ => ?_
  rw [hdata] at he hs
  rw [hs₆.database]
  exact ⟨arcs, among, hmem, hsome, hv, he, hs⟩

/-- What a success tells of the names of columns and of the budget. -/
theorem canTag_and_lt_of_wp (hscratch : s.CanScratch)
    (htarget : env.Fresh s.database target tables) (hedges : env.HasEdgeTable s.database)
    (hsubject : env.Holds s.database subject .edge es)
    (hsrc : env.Holds s.database src .vertex S) (hdst : env.Holds s.database dst .vertex D)
    (hS : .null ∉ S) (hD : .null ∉ D) {m : Nat} {Q : Unit → Store → Prop}
    (h : (env.shortestPath (.named target) subject src dst m).wp Q s) :
    env.CanTag ∧ m < Number.wordLimit := by
  have htags := canTag_of_wp h
  exact ⟨htags,
    (takes_shortestPath hscratch htarget hedges hsubject hsrc hdst hS hD htags m).lt_of_wp h⟩

/-- Where the order tells parents apart, these are the vertices visited. -/
theorem wp_shortestPath (hscratch : s.CanScratch) (htarget : env.Fresh s.database target tables)
    (hedges : env.HasEdgeTable s.database) (hsubject : env.Holds s.database subject .edge es)
    (hsrc : env.Holds s.database src .vertex S) (hdst : env.Holds s.database dst .vertex D)
    (hS : .null ∉ S) (hD : .null ∉ D) (htags : env.CanTag)
    (hordered : OrderedParents (env.HasEdge s.database subject)) {m : Nat}
    (hm : m < Number.wordLimit) :
    (env.shortestPath (.named target) subject src dst m).wp
      (fun _ s' =>
        env.schema.ListsOnce s'.database tables.vertices
          (Visited env.tagsMerged (env.HasEdge s.database subject) (· ∈ S) (· ∈ D) m) ∧
        env.schema.ListsOnce s'.database tables.edges
          (fun id => ∃ a, env.HasEdge s.database subject a ∧ a.id = id ∧
            Visited env.tagsMerged (env.HasEdge s.database subject) (· ∈ S) (· ∈ D) m a.child ∧
            Visited env.tagsMerged (env.HasEdge s.database subject) (· ∈ S) (· ∈ D) m a.parent) ∧
        Database.SameBut [tables.vertices, tables.edges] s.database s'.database) s := by
  have htakes := takes_shortestPath hscratch htarget hedges hsubject hsrc hdst hS hD htags m
  refine (htakes.wp hm).mono fun _ s' h => ?_
  obtain ⟨arcs, among, hmem, hamong, hv, he, hs⟩ := h
  have hE : (· ∈ arcs) = env.HasEdge s.database subject := funext fun a => propext (hmem a)
  have hvertex := mem_vertices hS hD (hE ▸ hordered) hamong
  rw [hE] at hvertex
  refine ⟨hv.congr hvertex, he.congr fun id => ?_, hs⟩
  simp only [hvertex]
  rfl

/-- The target holds a path, with all its vertices and edges, from the vertex to a destination. -/
def ContainsPath (env : Environment) (db : Database) (target : GraphRef) (E : Arc → Prop)
    (D : Value → Prop) (u : Value) : Prop :=
  ∃ vs es, env.Holds db target .vertex vs ∧ env.Holds db target .edge es ∧ u ∈ vs ∧ ∃ n d, D d ∧
    Walk (fun v w => (∃ a, E a ∧ a.id ∈ es ∧ a.child = v ∧ a.parent = w) ∧ w ∈ vs) n u d

/-- Over the vertices visited and all edges between, paths are walks through visited vertices. -/
theorem containsPath_iff_arrives {db : Database} {E : Arc → Prop} {merged : Bool} {m : Nat}
    (hresolves : env.resolve (.named target) = .ok tables) (hS : .null ∉ S)
    (hv : env.schema.ListsOnce db tables.vertices (Visited merged E (· ∈ S) (· ∈ D) m))
    (he : env.schema.ListsOnce db tables.edges
      (fun id => ∃ a, E a ∧ a.id = id ∧ Visited merged E (· ∈ S) (· ∈ D) m a.child ∧
        Visited merged E (· ∈ S) (· ∈ D) m a.parent)) {u : Value}
    (hu : Visited merged E (· ∈ S) (· ∈ D) m u) :
    env.ContainsPath db (.named target) E (· ∈ D) u ↔ Arrives merged E (· ∈ S) (· ∈ D) m u := by
  obtain ⟨vs, hlistv, _, hvs⟩ := hv
  obtain ⟨es, hliste, _, hes⟩ := he
  have hholdv : env.Holds db (.named target) .vertex vs := ⟨tables, hresolves, hlistv⟩
  have hholde : env.Holds db (.named target) .edge es := ⟨tables, hresolves, hliste⟩
  have hnull {v : Value} (hv : Visited merged E (· ∈ S) (· ∈ D) m v) : v ≠ .null := by
    obtain ⟨_, hw⟩ := hv.within
    exact hw.ne_null (fun _ _ => Leads.ne_null) hS
  constructor
  · intro h
    obtain ⟨vs', es', hv', he', _, n, d, hd, hw⟩ := h
    obtain rfl := hholdv.unique hv'
    obtain rfl := hholde.unique he'
    -- the walk stays among vertices visited, since the target holds no others
    refine ⟨n, d, hd, hw.map_of_inv (fun v w hv hs => ?_) hu⟩
    obtain ⟨⟨a, ha, _, hc, hp⟩, hin⟩ := hs
    have hw := (hvs w).mp hin
    exact ⟨⟨⟨a, ha, hc, hp, hnull hv, hnull hw⟩, hw⟩, hw⟩
  · intro h
    obtain ⟨n, d, hd, hw⟩ := h
    refine ⟨vs, es, hholdv, hholde, (hvs u).mpr hu, n, d, hd, ?_⟩
    refine hw.map_of_inv (fun v w hv hs => ?_) hu
    obtain ⟨⟨a, ha, rfl, rfl, _⟩, hw⟩ := hs
    exact ⟨⟨⟨a, ha, (hes _).mpr ⟨a, ha, rfl, hv, hw⟩, rfl, rfl⟩, (hvs _).mpr hw⟩, hw⟩

/-- A search for short paths succeeds exactly when the table of tags can be created and the engine takes
the budget. Then it leaves a complete path from a source within the budget exactly when some walk through the vertices visited
arrives at a destination. This is so whenever no cycle of edges within the budget avoids the
destinations. -/
theorem shortestPath_containsPath_iff (hscratch : s.CanScratch)
    (htarget : env.Fresh s.database target tables) (hedges : env.HasEdgeTable s.database)
    (hsubject : env.Holds s.database subject .edge es)
    (hsrc : env.Holds s.database src .vertex S) (hdst : env.Holds s.database dst .vertex D)
    (hS : .null ∉ S) (hD : .null ∉ D)
    (hordered : OrderedParents (env.HasEdge s.database subject)) (m : Nat) :
    let E := env.HasEdge s.database subject
    let Reaches u := ∃ n ≤ m, ∃ d ∈ D, Walk (Leads E .ancestor) n u d
    ((env.shortestPath (.named target) subject src dst m).wp
      (fun _ s' => ∀ u ∈ S, Reaches u →
        (env.ContainsPath s'.database (.named target) E (· ∈ D) u ↔
          Arrives env.tagsMerged E (· ∈ S) (· ∈ D) m u)) s ↔
        env.CanTag ∧ m < Number.wordLimit) ∧
      ((∀ v, ¬ Relation.TransGen (Detour E (· ∈ S) (· ∈ D) m) v v) →
        ∀ u ∈ S, Reaches u → Arrives env.tagsMerged E (· ∈ S) (· ∈ D) m u) := by
  intro E Reaches
  have hvisited {u : Value} (hu : u ∈ S) (hr : Reaches u) :
      Visited env.tagsMerged E (· ∈ S) (· ∈ D) m u :=
    visited_of_source hu (within_descendant_iff.mpr hr)
  refine ⟨⟨canTag_and_lt_of_wp hscratch htarget hedges hsubject hsrc hdst hS hD,
    fun ⟨htags, hm⟩ => ?_⟩, fun hacyclic u hu hr => ?_⟩
  · refine (wp_shortestPath hscratch htarget hedges hsubject hsrc hdst hS hD htags hordered hm).mono
      fun _ s' h u hu hr => ?_
    exact containsPath_iff_arrives htarget.resolves hS h.1 h.2.1 (hvisited hu hr)
  · obtain ⟨edges?, hscope, _⟩ := hsubject.restriction?
    obtain ⟨arcs, _, hmem⟩ := exists_arcs hedges hsubject hscope
    have hE : E = (· ∈ arcs) := funext fun a => propext (hmem a).symm
    rw [hE] at hacyclic ⊢
    exact (hE ▸ hvisited hu hr).arrives (hE ▸ hordered) hacyclic

/-- On the chain detours lead from `a` to `b` or to `c`, and never away from `c`. -/
theorem detours_chain {u v : Value}
    (h : Relation.TransGen (Detour (· ∈ SmallWorld.chain.map SmallWorld.arc) (· ∈ [.text "a"])
      (· ∈ [.text "c"]) 2) u v) :
    u = .text "a" ∧ v = .text "b" ∨ u ≠ .text "c" ∧ v = .text "c" := by
  induction h with
  | single h =>
    obtain ⟨_, e, he, rfl, rfl, _⟩ := h
    rcases SmallWorld.mem_chain.mp he with rfl | rfl
    · exact .inl ⟨rfl, rfl⟩
    · exact .inr ⟨by simp [SmallWorld.arc], rfl⟩
  | tail _ h ih =>
    obtain ⟨_, e, he, rfl, rfl, _⟩ := h
    rcases SmallWorld.mem_chain.mp he with rfl | rfl
    · simp [SmallWorld.arc] at ih
    · rcases ih with ⟨rfl, _⟩ | ⟨_, hc⟩
      · exact .inr ⟨by simp, rfl⟩
      · simp [SmallWorld.arc] at hc

/-- Along a walk of two edges nothing can be run into, so the path is found. -/
theorem shortestPath_containsPath_iff_chain :
    Program.wp (do
      SmallWorld.prepare (SmallWorld.world ["a", "b", "c"] SmallWorld.chain) "a" "c"
      SmallWorld.environment.shortestPath (.named "out") .base (.named "src") (.named "dst")
        (2 : ℕ))
      (fun _ s' => SmallWorld.environment.ContainsPath s'.database (.named "out")
        (· ∈ SmallWorld.chain.map SmallWorld.arc) (· ∈ [.text "c"]) (.text "a"))
      SmallWorld.start := by
  let E := (· ∈ SmallWorld.chain.map SmallWorld.arc)
  have hreaches : ∃ n ≤ 2, ∃ d ∈ [Value.text "c"], Walk (Leads E .ancestor) n (.text "a") d :=
    ⟨2, le_rfl, _, by simp, SmallWorld.chain_walk⟩
  have hacyclic (v : Value) :
      ¬ Relation.TransGen (Detour E (· ∈ [.text "a"]) (· ∈ [.text "c"]) 2) v v := by
    intro h
    rcases detours_chain h with ⟨rfl, hb⟩ | ⟨hne, hc⟩
    · simp at hb
    · exact hne hc
  refine .bind ((SmallWorld.wp_prepare (by simp) (by simp) (by decide)).mono fun _ s hs => ?_)
  obtain ⟨es, hsubject⟩ := hs.subject
  have h := shortestPath_containsPath_iff hs.canScratch hs.fresh hs.hasEdgeTable hsubject hs.src
    hs.dst (by simp) (by simp) (hs.hasEdgeTable.orderedParents SmallWorld.idAffinity_eq) 2
  rw [hs.hasEdge] at h
  obtain ⟨hrun, harrives⟩ := h
  apply (hrun.mpr ⟨.inr (by decide), by decide⟩).mono
  intro _ s' h
  exact (h (.text "a") (by simp) hreaches).mpr (harrives hacyclic _ (by simp) hreaches)

/-- Where a loop comes before the edge to the destination in the order, only its vertex is visited:
the loop fits the budget as well, and so it is picked. -/
theorem visited_loopThenEdge {v : Value}
    (h : Visited false (· ∈ SmallWorld.loopThenEdge.map SmallWorld.arc) (· ∈ [.text "a"])
      (· ∈ [.text "b"]) 2 v) : v = .text "a" := by
  let E := (· ∈ SmallWorld.loopThenEdge.map SmallWorld.arc)
  let D : Value → Prop := (· ∈ [.text "b"])
  have hedge : Leads E .ancestor (.text "a") (.text "b") := SmallWorld.loopThenEdge_edge
  have htag : TagAt false E D 0 (.text "b") (.text "b") :=
    ⟨At.zero_iff.mpr (by simp [D]), by simp [D], .nil _⟩
  have hfits : Fits false E D 2 0 (.text "a") (.text "b") (.text "a") := by
    refine ⟨SmallWorld.loopThenEdge_loop, 1, by omega, ?_⟩
    refine tagAt_succ_iff.mpr ⟨?_, _, _, htag, leads_descendant_iff.mpr hedge, rfl⟩
    simp [Within.zero_iff, D]
  have hstart : .text "a" ∈ [Value.text "a"] ∧ Within (Leads E .descendant) D 2 (.text "a") :=
    ⟨by simp, within_descendant_iff.mpr ⟨1, by omega, _, by simp [D], .cons hedge (.nil _)⟩⟩
  obtain ⟨i, _, h⟩ := h
  cases i with
  | zero =>
    simpa using (firstAt_zero_iff.mp h).1
  | succ i =>
    obtain ⟨⟨_, hu, tag, ⟨⟨e, he, rfl, rfl, _⟩, j, _, htag'⟩, hleast⟩, _⟩ := firstAt_succ_iff.mp h
    rcases SmallWorld.mem_loopThenEdge.mp he with rfl | rfl
    · rfl
    · obtain rfl := hu.unique (firstAt_zero_iff.mpr hstart)
      obtain rfl := htag'.1.unique htag.1
      obtain rfl : tag = .text "b" := by simpa [D] using htag'.2.1
      exact absurd (hleast _ hfits) (by decide)

/-- An edge leads to the destination, but the search never leaves the loop before it. -/
theorem not_containsPath_loopThenEdge :
    Walk (Leads (· ∈ SmallWorld.loopThenEdge.map SmallWorld.arc) .ancestor) 1 (.text "a")
      (.text "b") ∧
    Program.wp (do
      SmallWorld.prepare (SmallWorld.world ["a", "b"] SmallWorld.loopThenEdge) "a" "b"
      SmallWorld.environment.shortestPath (.named "out") .base (.named "src") (.named "dst")
        (2 : ℕ))
      (fun _ s' => ¬ SmallWorld.environment.ContainsPath s'.database (.named "out")
        (· ∈ SmallWorld.loopThenEdge.map SmallWorld.arc) (· ∈ [.text "b"]) (.text "a"))
      SmallWorld.start := by
  let E := (· ∈ SmallWorld.loopThenEdge.map SmallWorld.arc)
  have hwalk : Walk (Leads E .ancestor) 1 (.text "a") (.text "b") :=
    .cons SmallWorld.loopThenEdge_edge (.nil _)
  have hwithin : Within (Leads E .descendant) (· ∈ [.text "b"]) 2 (.text "a") :=
    within_descendant_iff.mpr ⟨1, by omega, _, by simp, hwalk⟩
  have htags : SmallWorld.environment.tagsMerged = false := by decide
  refine ⟨hwalk, .bind ((SmallWorld.wp_prepare (by simp) (by simp) (by decide)).mono
    fun _ s hs => ?_)⟩
  obtain ⟨es, hsubject⟩ := hs.subject
  have hordered := hs.hasEdgeTable.orderedParents (g := .base) SmallWorld.idAffinity_eq
  apply (wp_shortestPath hs.canScratch hs.fresh hs.hasEdgeTable hsubject hs.src hs.dst (by simp)
    (by simp) (.inr (by decide)) hordered (m := 2) (by decide)).mono
  intro _ s' h hpath
  rw [htags, hs.hasEdge] at h
  -- a walk that arrived would have to visit the destination
  obtain ⟨n, d, hd, hw⟩ := (containsPath_iff_arrives rfl (by simp) h.1 h.2.1
    (visited_of_source (by simp) hwithin)).mp hpath
  cases n with
  | zero =>
    obtain rfl := hw.eq_of_zero
    simp at hd
  | succ n =>
    obtain ⟨_, _, _, hlast⟩ := hw.exists_snoc
    obtain rfl := visited_loopThenEdge hlast
    simp at hd

end Environment
end Provenance
