-- SUMMARY: The edges between the vertices of short paths, on walks within the budget or not.
import Provenance.Proofs.ShortestPath

/-!
# Edges between the vertices of short paths

A search for short paths keeps vertices that walks within the budget pass, but it returns all edges
between them and not only those that it took. An edge from a late vertex to an early one may lie on
no walk within the budget, though always on one of little more than twice its length. Only where the
graph has no such edge between vertices on walks, all that is returned lies on one.
-/
namespace Provenance

/-- An edge between vertices on walks within the budget, for which there is no room between the
distances of its ends. -/
def Chord (E : Arc → Prop) (S D : Value → Prop) (m : Nat) (a : Arc) : Prop :=
  E a ∧ OnWalk E S D m a.child ∧ OnWalk E S D m a.parent ∧
    m < distanceFrom (Leads E .ancestor) S a.child + 1 +
      distanceTo (Leads E .ancestor) D a.parent

section Chords

variable {E : Arc → Prop} {S D : Value → Prop} {m : Nat} {a : Arc}

/-- An edge between vertices on walks is taken by a walk within the budget, or else is a chord. -/
theorem takenByWalk_iff_not_chord (ha : E a) (hc : OnWalk E S D m a.child)
    (hp : OnWalk E S D m a.parent) : TakenByWalk E S D m a ↔ ¬ Chord E S D m a := by
  rw [takenByWalk_iff_distance]
  constructor
  · exact fun h hchord => absurd hchord.2.2.2 (not_lt.mpr h)
  · exact fun h => not_lt.mp fun hlt => h ⟨ha, hc, hp, hlt⟩

/-- The way to the child and the way from the parent are both within the budget. -/
theorem OnWalk.takenByWalk_twice (hc : OnWalk E S D m a.child) (hp : OnWalk E S D m a.parent) :
    TakenByWalk E S D (2 * m + 1) a := by
  obtain ⟨i, _, hi, s, _, hs, _, hwi, _⟩ := hc
  obtain ⟨_, j, hj, _, d, _, hd, _, hwj⟩ := hp
  exact ⟨i, j, by omega, s, d, hs, hd, hwi, hwj⟩

end Chords

namespace Environment

open Shortest

variable {env : Environment} {s : Store} {target : String} {tables : TablePair}
  {subject src dst : GraphRef} {es S D : List Value}

/-- A search for short paths succeeds exactly when the table of tags can be created and the engine takes
the budget. Then its vertices lie on walks within the budget, its edges are all those between them, and
each lies on a walk of at most twice the budget and one edge more. Without chords each lies on a walk within the
budget. -/
theorem shortestPath_edges_onBudget (hscratch : s.CanScratch)
    (htarget : env.Fresh s.database target tables) (hedges : env.HasEdgeTable s.database)
    (hsubject : env.Holds s.database subject .edge es)
    (hsrc : env.Holds s.database src .vertex S) (hdst : env.Holds s.database dst .vertex D)
    (hS : .null ∉ S) (hD : .null ∉ D) (m : Nat) :
    let E := env.HasEdge s.database subject
    let Lies (n : Nat) id := ∃ a, E a ∧ a.id = id ∧ TakenByWalk E (· ∈ S) (· ∈ D) n a
    (env.shortestPath (.named target) subject src dst m).wp
      (fun _ s' => ∃ vs es', env.Holds s'.database (.named target) .vertex vs ∧
        env.Holds s'.database (.named target) .edge es' ∧
        (∀ v ∈ vs, OnWalk E (· ∈ S) (· ∈ D) m v) ∧
        (∀ id, id ∈ es' ↔ ∃ a, E a ∧ a.id = id ∧ a.child ∈ vs ∧ a.parent ∈ vs) ∧
        (∀ id ∈ es', Lies (2 * m + 1) id) ∧
        ((∀ a, ¬ Chord E (· ∈ S) (· ∈ D) m a) → ∀ id ∈ es', Lies m id)) s ↔
      env.CanTag ∧ m < Number.wordLimit := by
  intro E Lies
  refine ⟨canTag_and_lt_of_wp hscratch htarget hedges hsubject hsrc hdst hS hD,
    fun ⟨htags, hm⟩ => ?_⟩
  have htakes := takes_shortestPath hscratch htarget hedges hsubject hsrc hdst hS hD htags m
  refine (htakes.wp hm).mono fun _ s' h => ?_
  obtain ⟨arcs, among, hmem, hamong, ⟨vs, hlistv, _, hvs⟩, ⟨es', hliste, _, hes⟩, _⟩ := h
  have hE : (· ∈ arcs) = E := funext fun a => propext (hmem a)
  have hpassed (v : Value) (hv : v ∈ vs) : OnWalk E (· ∈ S) (· ∈ D) m v :=
    hE ▸ onWalk_of_mem_vertices hD hamong ((hvs v).mp hv)
  have hbetween (id : Value) :
      id ∈ es' ↔ ∃ a, E a ∧ a.id = id ∧ a.child ∈ vs ∧ a.parent ∈ vs := by
    simp only [hes, hvs]
    rfl
  refine ⟨vs, es', ⟨tables, htarget.resolves, hlistv⟩, ⟨tables, htarget.resolves, hliste⟩, hpassed,
    hbetween, fun id hid => ?_, fun hchord id hid => ?_⟩
  · obtain ⟨a, ha, rfl, hc, hp⟩ := (hbetween id).mp hid
    exact ⟨a, ha, rfl, (hpassed _ hc).takenByWalk_twice (hpassed _ hp)⟩
  · obtain ⟨a, ha, rfl, hc, hp⟩ := (hbetween id).mp hid
    have htaken := takenByWalk_iff_not_chord ha (hpassed _ hc) (hpassed _ hp)
    exact ⟨a, ha, rfl, htaken.mpr (hchord a)⟩

/-- On a walk of two edges there is no chord, so nothing is returned beside it. -/
theorem shortestPath_edges_onBudget_chain :
    Program.wp (do
      SmallWorld.prepare (SmallWorld.world ["a", "b", "c"] SmallWorld.chain) "a" "c"
      SmallWorld.environment.shortestPath (.named "out") .base (.named "src") (.named "dst")
        (2 : ℕ))
      (fun _ s' => ∃ es, SmallWorld.environment.Holds s'.database (.named "out") .edge es ∧
        ∀ id ∈ es, ∃ a ∈ SmallWorld.chain.map SmallWorld.arc, a.id = id ∧
          TakenByWalk (· ∈ SmallWorld.chain.map SmallWorld.arc) (· ∈ [.text "a"])
            (· ∈ [.text "c"]) 2 a)
      SmallWorld.start := by
  let E := (· ∈ SmallWorld.chain.map SmallWorld.arc)
  -- each edge is taken by the walk over both
  have hchord (a : Arc) : ¬ Chord E (· ∈ [.text "a"]) (· ∈ [.text "c"]) 2 a := by
    intro h
    have htaken : TakenByWalk E (· ∈ [.text "a"]) (· ∈ [.text "c"]) 2 a := by
      rcases SmallWorld.mem_chain.mp h.1 with rfl | rfl
      · exact ⟨0, 1, le_rfl, _, _, List.mem_singleton.mpr rfl, List.mem_singleton.mpr rfl, .nil _,
          .snoc (.nil _) SmallWorld.chain_second⟩
      · exact ⟨1, 0, le_rfl, _, _, List.mem_singleton.mpr rfl, List.mem_singleton.mpr rfl,
          .snoc (.nil _) SmallWorld.chain_first, .nil _⟩
    exact (takenByWalk_iff_not_chord h.1 h.2.1 h.2.2.1).mp htaken h
  refine .bind ((SmallWorld.wp_prepare (by simp) (by simp) (by decide)).mono fun _ s hs => ?_)
  obtain ⟨es, hsubject⟩ := hs.subject
  have h := shortestPath_edges_onBudget hs.canScratch hs.fresh hs.hasEdgeTable hsubject hs.src
    hs.dst (by simp) (by simp) 2
  rw [hs.hasEdge] at h
  apply (h.mpr ⟨.inr (by decide), by decide⟩).mono
  intro _ s' h
  obtain ⟨_, es', _, hes, _, _, _, honly⟩ := h
  exact ⟨es', hes, honly hchord⟩

/-- The edge back from the destination is returned, but only walks of three edges take it. -/
theorem not_onBudget_thereAndBack :
    Program.wp (do
      SmallWorld.prepare (SmallWorld.world ["a", "b"] SmallWorld.thereAndBack) "a" "b"
      SmallWorld.environment.shortestPath (.named "out") .base (.named "src") (.named "dst")
        (1 : ℕ))
      (fun _ s' => ∃ es, SmallWorld.environment.Holds s'.database (.named "out") .edge es ∧
        .text "e2" ∈ es)
      SmallWorld.start ∧
    ¬ ∃ a ∈ SmallWorld.thereAndBack.map SmallWorld.arc, a.id = .text "e2" ∧
      TakenByWalk (· ∈ SmallWorld.thereAndBack.map SmallWorld.arc) (· ∈ [.text "a"])
        (· ∈ [.text "b"]) 1 a := by
  let E := (· ∈ SmallWorld.thereAndBack.map SmallWorld.arc)
  constructor
  · have hwithin : Within (Leads E .descendant) (· ∈ [.text "b"]) 1 (.text "a") :=
      within_descendant_iff.mpr
        ⟨1, le_rfl, _, by simp, .snoc (.nil _) SmallWorld.thereAndBack_there⟩
    refine .bind ((SmallWorld.wp_prepare (by simp) (by simp) (by decide)).mono fun _ s hs => ?_)
    obtain ⟨es, hsubject⟩ := hs.subject
    have hordered := hs.hasEdgeTable.orderedParents (g := .base) SmallWorld.idAffinity_eq
    apply (wp_shortestPath hs.canScratch hs.fresh hs.hasEdgeTable hsubject hs.src hs.dst (by simp)
      (by simp) (.inr (by decide)) hordered (m := 1) (by decide)).mono
    intro _ s' h
    obtain ⟨_, ⟨es', hlists, _, hes⟩, _⟩ := h
    rw [hs.hasEdge] at hes hordered
    -- the source is visited, and from there only the destination can be next
    have ha : Visited SmallWorld.environment.tagsMerged E (· ∈ [.text "a"]) (· ∈ [.text "b"]) 1
        (.text "a") :=
      visited_of_source (List.mem_singleton.mpr rfl) hwithin
    obtain ⟨v, _, ⟨e, he, hnear, rfl, _⟩, hb⟩ := ha.exists_next hordered (by simp)
    rcases SmallWorld.mem_thereAndBack.mp he with rfl | rfl
    · refine ⟨es', ⟨SmallWorld.tables "out", rfl, hlists⟩, (hes _).mpr ?_⟩
      exact ⟨_, SmallWorld.mem_thereAndBack.mpr (.inr rfl), rfl, hb, ha⟩
    · simp [SmallWorld.arc, Arc.near] at hnear
  · intro h
    obtain ⟨a, ha, hid, i, j, hm, _, _, hs, _, hw, _⟩ := h
    -- no step is left to get to where the edge begins
    obtain rfl : i = 0 := by omega
    have hchild := hw.eq_of_zero
    rw [List.mem_singleton.mp hs] at hchild
    rcases SmallWorld.mem_thereAndBack.mp ha with rfl | rfl
    · simp [SmallWorld.arc] at hid
    · simp [SmallWorld.arc] at hchild

end Environment
end Provenance
