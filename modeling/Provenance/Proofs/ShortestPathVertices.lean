-- SUMMARY: The vertices of short paths, and searches whose budget is the least distance.
import Provenance.Proofs.ShortestPath
import Mathlib.Order.Bounds.Basic

/-!
# The vertices of short paths

Whichever parents a search for short paths picks, it stays on walks within the budget, and it sets
out from every source from which the budget reaches a destination. Where the budget is no more than
the least distance, each step has to lead on: what is picked lies one step farther from the sources
than all before and so was never visited, and no pick can lead a walk astray.
-/
namespace Provenance

/-! ## Tight budgets -/

/-- No walk from a source to a destination is shorter than the budget. -/
def Tight (E : Arc → Prop) (S D : Value → Prop) (m : Nat) : Prop :=
  ∀ n u d, S u → D d → Walk (Leads E .ancestor) n u d → m ≤ n

namespace Tight

variable {E : Arc → Prop} {S D : Value → Prop} {m i j : Nat} {v : Value}

theorem le_add (h : Tight E S D m) (hi : Within (Leads E .ancestor) S i v)
    (hj : Within (Leads E .descendant) D j v) : m ≤ i + j := by
  obtain ⟨i', hi', u, hu, hwi⟩ := hi
  obtain ⟨j', hj', d, hd, hwj⟩ := within_descendant_iff.mp hj
  exact (h _ u d hu hd (hwi.append hwj)).trans (by omega)

/-- Where the budget is left, it is used up: neither distance can be less. -/
theorem exists_at (h : Tight E S D m) (hv : Shortest.Room E S D m i v) :
    At (Leads E .ancestor) S i v ∧ ∃ j, i + j = m ∧ At (Leads E .descendant) D j v := by
  obtain ⟨hi, j, hm, hj⟩ := hv
  have hsum := h.le_add hi hj
  refine ⟨⟨hi, fun k hk hw => ?_⟩, j, by omega, hj, fun k hk hw => ?_⟩
  · have := h.le_add hw hj
    omega
  · have := h.le_add hi hw
    omega

/-- A vertex on a walk within the budget is on one of just this length. -/
theorem exists_onWalk (h : Tight E S D m) (hv : OnWalk E S D m v) :
    ∃ i j, i + j = m ∧ ∃ u d, S u ∧ D d ∧ Walk (Leads E .ancestor) i u v ∧
      Walk (Leads E .ancestor) j v d := by
  obtain ⟨i, j, hm, u, d, hu, hd, hi, hj⟩ := hv
  have := h _ u d hu hd (hi.append hj)
  exact ⟨i, j, by omega, u, d, hu, hd, hi, hj⟩

end Tight

namespace Shortest

variable {arcs : List Arc} {S D : List Value} {m i : Nat} {f : Frontier}

/-- The second search under a tight budget after step `i`: it has reached vertices of the distances
up to `i`, and from each source on its way to a destination it has kept a walk that can be
completed. -/
structure OnSchedule (arcs : List Arc) (S D : List Value) (m i : Nat) (f : Frontier) : Prop where
  current : ∀ v ∈ f.current, Room (· ∈ arcs) (· ∈ S) (· ∈ D) m i v
  reached : ∀ v ∈ f.reached, ∃ k ≤ i, Room (· ∈ arcs) (· ∈ S) (· ∈ D) m k v
  leads : i ≤ m → ∀ u ∈ S, ∀ d ∈ D, Walk (Leads (· ∈ arcs) .ancestor) m u d →
    ∃ v ∈ f.current, Walk (fun v w => Leads (· ∈ arcs) .ancestor v w ∧ w ∈ f.reached) i u v ∧
      ∃ j, i + j = m ∧ Walk (Leads (· ∈ arcs) .descendant) j d v

namespace OnSchedule

/-- What may be next lies one step farther than all that was reached, so it is new. -/
theorem not_mem_reached (h : OnSchedule arcs S D m i f)
    (htight : Tight (· ∈ arcs) (· ∈ S) (· ∈ D) m) {v : Value}
    (hv : Room (· ∈ arcs) (· ∈ S) (· ∈ D) m (i + 1) v) : v ∉ f.reached := by
  intro hin
  obtain ⟨k, hk, hroom⟩ := h.reached v hin
  have := (htight.exists_at hroom).1.unique (htight.exists_at hv).1
  omega

theorem null_not_mem (h : OnSchedule arcs S D m i f) (hS : .null ∉ S) : .null ∉ f.reached := by
  intro hin
  obtain ⟨k, _, hroom⟩ := h.reached _ hin
  exact hroom.1.ne_null (fun _ _ => Leads.ne_null) hS rfl

/-- A walk that can be completed goes on to a parent chosen under the tag of its destination. -/
theorem exists_choice (h : OnSchedule arcs S D m i f) (hD : .null ∉ D)
    (htight : Tight (· ∈ arcs) (· ∈ S) (· ∈ D) m) {v d : Value} {j : Nat} (hv : v ∈ f.current)
    (hd : d ∈ D) (hj : i + (j + 1) = m)
    (hw : Walk (Leads (· ∈ arcs) .descendant) (j + 1) d v) :
    ∃ w ∈ choices f (back false (connections arcs) m 1 (.start D)).hops m i,
      Leads (· ∈ arcs) .ancestor v w ∧ Room (· ∈ arcs) (· ∈ S) (· ∈ D) m (i + 1) w ∧
      Walk (Leads (· ∈ arcs) .descendant) j d w := by
  have hroom := h.current v hv
  -- the vertex before on the walk from the destination fits, so some parent is chosen
  have htag : TagAt false (· ∈ arcs) (· ∈ D) (j + 1) v d := by
    obtain ⟨_, k, hk, hat⟩ := htight.exists_at hroom
    obtain rfl : k = j + 1 := by omega
    exact ⟨hat, hd, hw⟩
  obtain ⟨_, p, tag, hp, hs, rfl⟩ := tagAt_succ_iff.mp htag
  have hfits : Fits false (· ∈ arcs) (· ∈ D) m i v d p :=
    ⟨leads_descendant_iff.mp hs, j, by omega, hp⟩
  obtain ⟨w, hin, hchosen⟩ := exists_mem_choices_of_fits hD hv hfits
  have hnext := hroom.succ hchosen
  -- no parent under this tag can be at another distance from the destinations
  obtain ⟨hlead, l, _, hat, _, hwalk⟩ := hchosen
  obtain ⟨_, k, hk, hat'⟩ := htight.exists_at hnext
  obtain rfl : l = j := by
    have := hat.unique hat'
    omega
  exact ⟨w, hin, hlead, hnext, hwalk⟩

theorem advance (h : OnSchedule arcs S D m i f) (hS : .null ∉ S) (hD : .null ∉ D)
    (htight : Tight (· ∈ arcs) (· ∈ S) (· ∈ D) m) :
    OnSchedule arcs S D m (i + 1) (onward false arcs D m i f) := by
  have hcurrent := room_of_mem_onward false hD h.current
  refine ⟨hcurrent, fun v hv => ?_, fun him u hu d hd hw => ?_⟩
  · rcases List.mem_append.mp hv with hv | hv
    · obtain ⟨k, hk, hroom⟩ := h.reached v hv
      exact ⟨k, by omega, hroom⟩
    · exact ⟨i + 1, le_rfl, hcurrent v hv⟩
  · obtain ⟨v, hv, hwalk, j, hj, hback⟩ := h.leads (by omega) u hu d hd hw
    obtain ⟨j, rfl⟩ : ∃ k, j = k + 1 := ⟨j - 1, by omega⟩
    obtain ⟨w, hchosen, hlead, hroom, hrest⟩ := h.exists_choice hD htight hv hd hj hback
    have hin : w ∈ (onward false arcs D m i f).current :=
      mem_onward_of_mem_choices (h.null_not_mem hS) hlead.ne_null (h.not_mem_reached htight hroom)
        hchosen
    -- the walk kept so far goes on to the parent chosen, since that was not pruned
    refine ⟨w, hin, .snoc ?_ ⟨hlead, List.mem_append_right _ hin⟩, j, by omega, hrest⟩
    exact hwalk.map_of_inv (p := fun _ => True)
      (fun _ _ _ hs => ⟨⟨hs.1, List.mem_append_left _ hs.2⟩, trivial⟩) trivial

/-- Where no vertex is left, there is no walk to be completed. -/
theorem of_idle (h : OnSchedule arcs S D m i f) (hidle : f.current = []) :
    OnSchedule arcs S D m (i + 1) f where
  current := by simp [hidle]
  reached := by
    intro v hv
    obtain ⟨k, hk, hroom⟩ := h.reached v hv
    exact ⟨k, by omega, hroom⟩
  leads := by
    intro him u hu d hd hw
    obtain ⟨v, hv, _⟩ := h.leads (by omega) u hu d hd hw
    simp [hidle] at hv

theorem steady (hS : .null ∉ S) (hD : .null ∉ D)
    (htight : Tight (· ∈ arcs) (· ∈ S) (· ∈ D) m) :
    Steady (onward false arcs D m) (fun f => f.current.isEmpty) (OnSchedule arcs S D m) where
  step h := h.advance hS hD htight
  rest h hidle := h.of_idle (List.isEmpty_iff.mp hidle)

theorem start {among : List Value → List Value} (hD : .null ∉ D)
    (hamong : SourcesAmong among S (back false (connections arcs) m 1 (.start D)).reached) :
    OnSchedule arcs S D m 0
      (.start (among (back false (connections arcs) m 1 (.start D)).reached)) where
  current := room_of_mem_sources hD hamong
  reached v hv := ⟨0, le_rfl, room_of_mem_sources hD hamong v hv⟩
  leads := by
    intro _ u hu d hd hw
    have hwithin := within_descendant_iff.mpr ⟨m, le_rfl, d, hd, hw⟩
    have hin := (hamong u).mpr ⟨hu, (mem_reached_back hD u).mpr hwithin⟩
    exact ⟨u, Value.mem_groups.mpr hin, .nil u, m, by omega,
      hw.reverse fun _ _ => leads_descendant_iff.mpr⟩

end OnSchedule

/-- Between a source and a destination at the least distance a whole walk is left. -/
theorem walk_in_vertices {among : List Value → List Value} (hS : .null ∉ S) (hD : .null ∉ D)
    (htight : Tight (· ∈ arcs) (· ∈ S) (· ∈ D) m)
    (hamong : SourcesAmong among S (back false (connections arcs) m 1 (.start D)).reached)
    {u d : Value} (hu : u ∈ S) (hd : d ∈ D) (hw : Walk (Leads (· ∈ arcs) .ancestor) m u d) :
    Walk (fun v w => Leads (· ∈ arcs) .ancestor v w ∧ w ∈ vertices false arcs among D m) m u d := by
  obtain ⟨f, h, hf⟩ := exists_reached_eq_vertices (OnSchedule.steady hS hD htight)
    (.start hD hamong)
  rw [← hf]
  -- after as many steps as the budget allows there is nothing left to complete
  obtain ⟨v, _, hwalk, j, hj, hrest⟩ := h.leads le_rfl u hu d hd hw
  obtain rfl : j = 0 := by omega
  obtain rfl := hrest.eq_of_zero
  exact hwalk

/-! ### One source and one destination -/

theorem length_groups_eq_one {vs : List Value} {v : Value} (hv : v ∈ vs)
    (hall : ∀ w ∈ vs, w = v) : (Value.groups vs).length = 1 := by
  have hperm : (Value.groups vs).Perm [v] := by
    refine (List.perm_ext_iff_of_nodup (Value.nodup_groups _) (List.nodup_singleton v)).mpr
      fun w => ?_
    rw [Value.mem_groups, List.mem_singleton]
    exact ⟨hall w, fun h => h ▸ hv⟩
  exact hperm.length_eq

/-- With one destination a single vertex leads on to a single one: it has a single tag. -/
theorem eq_of_mem_choices (hD : .null ∉ D) (hone : ∀ d ∈ D, ∀ d' ∈ D, d = d')
    (hcurrent : ∀ u ∈ f.current, ∀ u' ∈ f.current, u = u') {v w : Value}
    (hv : v ∈ choices f (back false (connections arcs) m 1 (.start D)).hops m i)
    (hw : w ∈ choices f (back false (connections arcs) m 1 (.start D)).hops m i) : v = w := by
  obtain ⟨h, hh, rfl⟩ := mem_choices_iff_least.mp hv
  obtain ⟨h', hh', rfl⟩ := mem_choices_iff_least.mp hw
  obtain ⟨hin, _, _, _, _, htag, _⟩ := of_mem_fitting hD hh
  obtain ⟨hin', _, _, _, _, htag', _⟩ := of_mem_fitting hD hh'
  rw [hcurrent _ hin _ hin', hone _ htag _ htag']

/-- The second search between one source and one destination has reached one vertex more than it
took steps. -/
structure SingleFile (arcs : List Arc) (S D : List Value) (m i : Nat) (f : Frontier) : Prop extends
    OnSchedule arcs S D m i f where
  alike : ∀ v ∈ f.current, ∀ w ∈ f.current, v = w
  count : i ≤ m → f.reached.length = i + 1

namespace SingleFile

variable {u d : Value}

theorem advance (h : SingleFile arcs S D m i f) (hS : .null ∉ S) (hD : .null ∉ D)
    (htight : Tight (· ∈ arcs) (· ∈ S) (· ∈ D) m) (hone : ∀ d ∈ D, ∀ d' ∈ D, d = d')
    (hu : u ∈ S) (hd : d ∈ D) (hw : Walk (Leads (· ∈ arcs) .ancestor) m u d) :
    SingleFile arcs S D m (i + 1) (onward false arcs D m i f) := by
  have hnext := h.toOnSchedule.advance hS hD htight
  have halike : ∀ v ∈ (onward false arcs D m i f).current,
      ∀ w ∈ (onward false arcs D m i f).current, v = w := fun v hv w hw =>
    eq_of_mem_choices hD hone h.alike (mem_choices_of_mem_onward hv) (mem_choices_of_mem_onward hw)
  refine ⟨hnext, halike, fun him => ?_⟩
  -- the walk that is kept makes it exactly one
  obtain ⟨v, hv, _⟩ := hnext.leads him u hu d hd hw
  have hlast := length_groups_eq_one (Value.mem_groups.mp hv) fun w hw =>
    halike w (Value.mem_groups.mpr hw) v hv
  simp only [onward, Frontier.advance, List.length_append, h.count (by omega)] at hlast ⊢
  omega

theorem of_idle (h : SingleFile arcs S D m i f) (hu : u ∈ S) (hd : d ∈ D)
    (hw : Walk (Leads (· ∈ arcs) .ancestor) m u d) (hidle : f.current = []) :
    SingleFile arcs S D m (i + 1) f := by
  refine ⟨h.toOnSchedule.of_idle hidle, h.alike, fun him => ?_⟩
  obtain ⟨v, hv, _⟩ := h.leads (by omega) u hu d hd hw
  simp [hidle] at hv

theorem start {among : List Value → List Value} (hD : .null ∉ D)
    (hamong : SourcesAmong among S (back false (connections arcs) m 1 (.start D)).reached)
    (hone : ∀ u ∈ S, ∀ u' ∈ S, u = u') (hu : u ∈ S) (hd : d ∈ D)
    (hw : Walk (Leads (· ∈ arcs) .ancestor) m u d) :
    SingleFile arcs S D m 0
      (.start (among (back false (connections arcs) m 1 (.start D)).reached)) := by
  have hstart := OnSchedule.start hD hamong
  have hsource (v : Value)
      (hv : v ∈ among (back false (connections arcs) m 1 (.start D)).reached) : v ∈ S :=
    ((hamong v).mp hv).1
  refine ⟨hstart, fun v hv w hw => ?_, fun _ => ?_⟩
  · exact hone v (hsource v (Value.mem_groups.mp hv)) w (hsource w (Value.mem_groups.mp hw))
  · obtain ⟨v, hv, _⟩ := hstart.leads (Nat.zero_le m) u hu d hd hw
    have hv := Value.mem_groups.mp hv
    exact length_groups_eq_one hv fun w hw => hone w (hsource w hw) v (hsource v hv)

end SingleFile

theorem length_vertices {among : List Value → List Value} (hS : .null ∉ S) (hD : .null ∉ D)
    (htight : Tight (· ∈ arcs) (· ∈ S) (· ∈ D) m)
    (hamong : SourcesAmong among S (back false (connections arcs) m 1 (.start D)).reached)
    (hsrc : ∀ u ∈ S, ∀ u' ∈ S, u = u') (hdst : ∀ d ∈ D, ∀ d' ∈ D, d = d') {u d : Value}
    (hu : u ∈ S) (hd : d ∈ D) (hw : Walk (Leads (· ∈ arcs) .ancestor) m u d) :
    (vertices false arcs among D m).length = m + 1 := by
  have hsteady : Steady (onward false arcs D m) (fun f => f.current.isEmpty)
      (SingleFile arcs S D m) :=
    ⟨fun h => h.advance hS hD htight hdst hu hd hw,
      fun h hidle => h.of_idle hu hd hw (List.isEmpty_iff.mp hidle)⟩
  obtain ⟨f, h, hf⟩ := exists_reached_eq_vertices hsteady (.start hD hamong hsrc hu hd hw)
  rw [← hf]
  exact h.count le_rfl

/-- Both searches leave no vertex twice. -/
theorem nodup_vertices (merged : Bool) (among : List Value → List Value) :
    (vertices merged arcs among D m).Nodup := by
  rw [vertices_eq_sweep]
  exact Frontier.nodup_reached_sweep (Value.nodup_groups _) _ _ _

end Shortest

/-! ## The instruction -/

namespace Environment

open Shortest

variable {env : Environment} {s : Store} {target : String} {tables : TablePair}
  {subject src dst : GraphRef} {es S D : List Value}

/-- No distance is greater than the number of edges there are. -/
theorem leastDistance_le_length {ids : List Value} (hbase : env.Holds s.database .base .edge ids)
    {m : Nat} (hleast : IsLeast {n | ∃ u ∈ S, ∃ d ∈ D,
      Walk (Leads (env.HasEdge s.database subject) .ancestor) n u d} m) : m ≤ ids.length := by
  obtain ⟨⟨u, hu, d, hd, hw⟩, hleast⟩ := hleast
  have hat : At (Leads (env.HasEdge s.database subject) .ancestor) (· ∈ S) m d := by
    refine ⟨⟨m, le_rfl, u, hu, hw⟩, fun k hk hnear => ?_⟩
    obtain ⟨n, hn, u', hu', hw'⟩ := hnear
    have := hleast ⟨u', hu', d, hd, hw'⟩
    omega
  obtain ⟨_, hr, t, hfind, _, hids⟩ := hbase
  obtain rfl := Except.ok.inj hr
  refine (hat.le_length (t.values env.schema.parentColumn) fun _ w hs => ?_).trans_eq ?_
  · obtain ⟨a, ha, _, rfl, _⟩ := hs
    obtain ⟨t', _, hfind', _, _, r, hr, rfl⟩ := ha
    obtain rfl : t = t' := Option.some.inj (hfind.symm.trans hfind')
    exact List.mem_map_of_mem hr
  · simp [← hids, Table.values]

theorem tagsMerged_eq_false (h : Name.folded env.schema.idColumn ≠ Name.folded "reaching") :
    env.tagsMerged = false :=
  decide_eq_false fun he => h (he ▸ rfl)

/-- The target holds a walk of `n` edges, with all its vertices and edges. -/
def ContainsWalk (env : Environment) (db : Database) (target : GraphRef) (E : Arc → Prop) (n : Nat)
    (u d : Value) : Prop :=
  ∃ vs es, env.Holds db target .vertex vs ∧ env.Holds db target .edge es ∧ u ∈ vs ∧
    Walk (fun v w => (∃ a, E a ∧ a.id ∈ es ∧ a.child = v ∧ a.parent = w) ∧ w ∈ vs) n u d

/-- A search for short paths is right where the budget is the least distance between the sources and
the destinations. Then its vertices lie on walks of just this length, and it leaves a whole one for
each source and each destination that are so far apart: a shortest path. From one source to one
destination it leaves just the vertices of one path. As an engine numbers rows in 64 bits, it has no
more edges than that, and takes any distance between vertices for a budget. -/
theorem shortestPath_of_leastDistance (hscratch : s.CanScratch)
    (htarget : env.Fresh s.database target tables) (hedges : env.HasEdgeTable s.database)
    (hsubject : env.Holds s.database subject .edge es)
    (hsrc : env.Holds s.database src .vertex S) (hdst : env.Holds s.database dst .vertex D)
    (hS : .null ∉ S) (hD : .null ∉ D)
    (htags : Name.folded env.schema.idColumn ≠ Name.folded "reaching") {ids : List Value}
    (hbase : env.Holds s.database .base .edge ids) (hrows : ids.length < Number.wordLimit) {m : Nat}
    (hleast : IsLeast {n | ∃ u ∈ S, ∃ d ∈ D,
      Walk (Leads (env.HasEdge s.database subject) .ancestor) n u d} m) :
    let E := env.HasEdge s.database subject
    (env.shortestPath (.named target) subject src dst m).wp
      (fun _ s' => ∃ vs, env.Holds s'.database (.named target) .vertex vs ∧ vs.Nodup ∧
        (∀ v ∈ vs, ∃ i j, i + j = m ∧ ∃ u d, u ∈ S ∧ d ∈ D ∧ Walk (Leads E .ancestor) i u v ∧
          Walk (Leads E .ancestor) j v d) ∧
        (∀ u ∈ S, ∀ d ∈ D, Walk (Leads E .ancestor) m u d →
          env.ContainsWalk s'.database (.named target) E m u d) ∧
        ((∀ u ∈ S, ∀ u' ∈ S, u = u') → (∀ d ∈ D, ∀ d' ∈ D, d = d') → vs.length = m + 1)) s := by
  intro E
  have hm : m < Number.wordLimit := (leastDistance_le_length hbase hleast).trans_lt hrows
  refine ((takes_shortestPath hscratch htarget hedges hsubject hsrc hdst hS hD (.inr htags)
    m).wp hm).mono fun _ s' h => ?_
  obtain ⟨arcs, among, hmem, hamong, hv, he, _⟩ := h
  rw [tagsMerged_eq_false htags] at hamong hv he
  have hE : (· ∈ arcs) = E := funext fun a => propext (hmem a)
  have htight : Tight (· ∈ arcs) (· ∈ S) (· ∈ D) m :=
    fun n u d hu hd hw => hleast.2 ⟨u, hu, d, hd, (congrArg (Leads · .ancestor) hE) ▸ hw⟩
  obtain ⟨vs, hlistv, hnodup, hvs⟩ := hv
  obtain ⟨es', hliste, _, hes⟩ := he
  have hholdv : env.Holds s'.database (.named target) .vertex vs :=
    ⟨tables, htarget.resolves, hlistv⟩
  refine ⟨vs, hholdv, hnodup, fun v hv => ?_, fun u hu d hd hw => ?_, fun hsrc hdst => ?_⟩
  · exact hE ▸ htight.exists_onWalk (onWalk_of_mem_vertices hD hamong ((hvs v).mp hv))
  · -- the walk that is left takes edges between vertices left, and all these are returned
    have hwithin := within_descendant_iff.mpr ⟨m, le_rfl, d, hd, hE ▸ hw⟩
    have hfirst := mem_vertices_of_source hD hamong hu hwithin
    refine ⟨vs, es', hholdv, ⟨tables, htarget.resolves, hliste⟩, (hvs u).mpr hfirst, ?_⟩
    refine (walk_in_vertices hS hD htight hamong hu hd (hE ▸ hw)).map_of_inv ?_ hfirst
    intro v w hv hs
    obtain ⟨⟨a, ha, rfl, rfl, _⟩, hw⟩ := hs
    have ha := (hmem a).mp ha
    exact ⟨⟨⟨a, ha, (hes _).mpr ⟨a, ha, rfl, hv, hw⟩, rfl, rfl⟩, (hvs _).mpr hw⟩, hw⟩
  · obtain ⟨⟨u, hu, d, hd, hw⟩, _⟩ := hleast
    have hlength := length_vertices hS hD htight hamong hsrc hdst hu hd (hE ▸ hw)
    exact ((List.perm_ext_iff_of_nodup hnodup (nodup_vertices false among)).mpr hvs).length_eq.trans
      hlength

/-- On a walk of two edges two are just enough, and all three vertices are returned. -/
theorem shortestPath_of_leastDistance_chain :
    Program.wp (do
      SmallWorld.prepare (SmallWorld.world ["a", "b", "c"] SmallWorld.chain) "a" "c"
      SmallWorld.environment.shortestPath (.named "out") .base (.named "src") (.named "dst")
        (2 : ℕ))
      (fun _ s' => (∃ vs, SmallWorld.environment.Holds s'.database (.named "out") .vertex vs ∧
          vs.length = 3) ∧
        SmallWorld.environment.ContainsWalk s'.database (.named "out")
          (· ∈ SmallWorld.chain.map SmallWorld.arc) 2 (.text "a") (.text "c"))
      SmallWorld.start := by
  let E := (· ∈ SmallWorld.chain.map SmallWorld.arc)
  have hleast : IsLeast {n | ∃ u ∈ [Value.text "a"], ∃ d ∈ [Value.text "c"],
      Walk (Leads E .ancestor) n u d} 2 := by
    refine ⟨⟨_, by simp, _, by simp, SmallWorld.chain_walk⟩, fun n h => ?_⟩
    obtain ⟨u, hu, d, hd, hw⟩ := h
    obtain rfl := List.mem_singleton.mp hu
    obtain rfl := List.mem_singleton.mp hd
    by_contra hlt
    obtain rfl | rfl : n = 0 ∨ n = 1 := by omega
    · simpa using hw.eq_of_zero
    · -- no single edge leads from the first vertex to the last
      obtain ⟨v, hw, a, ha, hnear, hfar, _⟩ := hw.exists_snoc
      obtain rfl := hw.eq_of_zero
      rcases SmallWorld.mem_chain.mp ha with rfl | rfl
      · simp [SmallWorld.arc, Arc.far] at hfar
      · simp [SmallWorld.arc, Arc.near] at hnear
  refine .bind ((SmallWorld.wp_prepare (by simp) (by simp) (by decide)).mono fun _ s hs => ?_)
  obtain ⟨es, hsubject⟩ := hs.subject
  obtain ⟨ids, hbase, hlength⟩ := hs.rows
  have h := shortestPath_of_leastDistance hs.canScratch hs.fresh hs.hasEdgeTable hsubject hs.src
    hs.dst (by simp) (by simp) (by decide) hbase (by rw [hlength]; decide) (m := 2)
  rw [hs.hasEdge] at h
  apply (h hleast).mono
  intro _ s' h
  obtain ⟨vs, hvs, _, _, hpaths, hlength⟩ := h
  have hpath := hpaths _ (by simp) _ (by simp) SmallWorld.chain_walk
  exact ⟨⟨vs, hvs, hlength (by simp) (by simp)⟩, hpath⟩

end Environment
end Provenance
