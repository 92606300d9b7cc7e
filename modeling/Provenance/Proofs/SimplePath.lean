-- SUMMARY: The vertices and edges on all directed paths within a budget.
import Provenance.Proofs.Retrace
import Provenance.Proofs.SmallWorlds

/-!
# All paths within a budget

A vertex lies on a directed walk of at most `m` edges from the sources to the destinations when its
distance from the ones and its distance to the others fit into `m` together, and an edge does when
there is room for it between the distances of its ends. The instruction finds exactly these. The
second search comes to each vertex by a shortest walk, which leaves the budget of every longer one.
-/
namespace Provenance

/-! ## Walks that pass -/

/-- The vertex is passed by a walk of at most `m` steps from `S` to `D`. -/
def OnWalk (E : Arc → Prop) (S D : Value → Prop) (m : Nat) (v : Value) : Prop :=
  ∃ i j, i + j ≤ m ∧ ∃ s d, S s ∧ D d ∧ Walk (Leads E .ancestor) i s v ∧
    Walk (Leads E .ancestor) j v d

/-- The edge is taken by a walk of at most `m` steps from `S` to `D`. -/
def TakenByWalk (E : Arc → Prop) (S D : Value → Prop) (m : Nat) (a : Arc) : Prop :=
  ∃ i j, i + 1 + j ≤ m ∧ ∃ s d, S s ∧ D d ∧ Walk (Leads E .ancestor) i s a.child ∧
    Walk (Leads E .ancestor) j a.parent d

section Walks

variable {E : Arc → Prop} {S D : Value → Prop} {m : Nat}

/-- Walks to the destinations are walks from them to descendants. -/
theorem within_descendant_iff {v : Value} {j : Nat} :
    Within (Leads E .descendant) D j v ↔ ∃ i ≤ j, ∃ d, D d ∧ Walk (Leads E .ancestor) i v d := by
  constructor
  · intro h
    obtain ⟨i, hi, d, hd, hw⟩ := h
    exact ⟨i, hi, d, hd, hw.reverse fun _ _ hs => leads_descendant_iff.mp hs⟩
  · intro h
    obtain ⟨i, hi, d, hd, hw⟩ := h
    exact ⟨i, hi, d, hd, hw.reverse fun _ _ hs => leads_descendant_iff.mpr hs⟩

theorem distanceTo_le_iff {v : Value} {j : Nat} :
    distanceTo (Leads E .ancestor) D v ≤ j ↔ Within (Leads E .descendant) D j v := by
  rw [distanceTo_eq_distanceFrom fun u v => leads_descendant_iff, distanceFrom_le_iff]

theorem onWalk_iff {v : Value} : OnWalk E S D m v ↔
    ∃ i j, i + j ≤ m ∧ Within (Leads E .ancestor) S i v ∧ Within (Leads E .descendant) D j v := by
  constructor
  · intro h
    obtain ⟨i, j, hm, s, d, hs, hd, hi, hj⟩ := h
    exact ⟨i, j, hm, ⟨i, le_rfl, s, hs, hi⟩, within_descendant_iff.mpr ⟨j, le_rfl, d, hd, hj⟩⟩
  · intro h
    obtain ⟨i, j, hm, ⟨i', hi', s, hs, hi⟩, hj⟩ := h
    obtain ⟨j', hj', d, hd, hj⟩ := within_descendant_iff.mp hj
    exact ⟨i', j', by omega, s, d, hs, hd, hi, hj⟩

theorem takenByWalk_iff {a : Arc} : TakenByWalk E S D m a ↔
    ∃ i j, i + 1 + j ≤ m ∧ Within (Leads E .ancestor) S i a.child ∧
      Within (Leads E .descendant) D j a.parent := by
  constructor
  · intro h
    obtain ⟨i, j, hm, s, d, hs, hd, hi, hj⟩ := h
    exact ⟨i, j, hm, ⟨i, le_rfl, s, hs, hi⟩, within_descendant_iff.mpr ⟨j, le_rfl, d, hd, hj⟩⟩
  · intro h
    obtain ⟨i, j, hm, ⟨i', hi', s, hs, hi⟩, hj⟩ := h
    obtain ⟨j', hj', d, hd, hj⟩ := within_descendant_iff.mp hj
    exact ⟨i', j', by omega, s, d, hs, hd, hi, hj⟩

/-- Without a step the edges do not matter. -/
theorem onWalk_congr {E' : Arc → Prop} {v : Value} (h : m ≠ 0 → ∀ a, E a ↔ E' a) :
    OnWalk E S D m v ↔ OnWalk E' S D m v := by
  have hzero (E : Arc → Prop) : OnWalk E S D 0 v ↔ S v ∧ D v := by
    rw [onWalk_iff]
    constructor
    · intro h
      obtain ⟨i, j, hm, hi, hj⟩ := h
      obtain ⟨rfl, rfl⟩ : i = 0 ∧ j = 0 := by omega
      exact ⟨Within.zero_iff.mp hi, Within.zero_iff.mp hj⟩
    · exact fun ⟨hs, hd⟩ => ⟨0, 0, le_rfl, Within.zero_iff.mpr hs, Within.zero_iff.mpr hd⟩
  by_cases hm : m = 0
  · subst hm
    rw [hzero, hzero]
  · obtain rfl : E = E' := funext fun a => propext (h hm a)
    rfl

theorem TakenByWalk.ne_zero {a : Arc} (h : TakenByWalk E S D m a) : m ≠ 0 := by
  obtain ⟨i, j, hm, _⟩ := h
  omega

theorem exists_takenByWalk_congr {E' : Arc → Prop} {id : Value} (h : m ≠ 0 → ∀ a, E a ↔ E' a) :
    (∃ a, E a ∧ a.id = id ∧ TakenByWalk E S D m a) ↔
      ∃ a, E' a ∧ a.id = id ∧ TakenByWalk E' S D m a := by
  by_cases hm : m = 0
  · constructor <;> exact fun ⟨_, _, _, ht⟩ => absurd hm ht.ne_zero
  · obtain rfl : E = E' := funext fun a => propext (h hm a)
    rfl

/-- A vertex is passed exactly when its two distances fit into the budget. -/
theorem onWalk_iff_distance {v : Value} : OnWalk E S D m v ↔
    distanceFrom (Leads E .ancestor) S v + distanceTo (Leads E .ancestor) D v ≤ m := by
  simp only [onWalk_iff, add_le_natCast_iff, distanceFrom_le_iff, distanceTo_le_iff]

/-- An edge is taken exactly when it fits in between the distances of its ends. -/
theorem takenByWalk_iff_distance {a : Arc} : TakenByWalk E S D m a ↔
    distanceFrom (Leads E .ancestor) S a.child + 1 + distanceTo (Leads E .ancestor) D a.parent ≤
      m := by
  have hone := add_add_le_natCast_iff (k := 1) (n := m)
    (a := distanceFrom (Leads E .ancestor) S a.child)
    (b := distanceTo (Leads E .ancestor) D a.parent)
  rw [Nat.cast_one, add_right_comm] at hone
  simp only [takenByWalk_iff, hone, distanceFrom_le_iff, distanceTo_le_iff, Nat.add_right_comm _ 1]

end Walks

/-! ## Both searches -/

namespace Frontier

variable {arcs : List Arc} {S D : List Value} {budget : Nat}

/-- The layers of the second search: the vertices by their distance from the sources, as far as the
destinations can still be reached within the budget. -/
def DirectedLayer (arcs : List Arc) (S D : List Value) (budget i : Nat) (v : Value) : Prop :=
  At (Leads (· ∈ arcs) .ancestor) (· ∈ S) i v ∧
    ∃ j, i + j ≤ budget ∧ Within (Leads (· ∈ arcs) .descendant) (· ∈ D) j v

theorem directed_layers (hS : .null ∉ S) (hD : .null ∉ D) :
    Layers
      (fun i f =>
        f.arrivals [.ancestor] (record [.descendant] arcs budget 1 (.start D) []).2 budget i)
      (DirectedLayer arcs S D budget) where
  ne_null h := h.1.1.ne_null (fun _ _ => Leads.ne_null) hS
  unique h h' := h.1.unique h'.1
  arrives := by
    intro i f v hf hv hnew
    rw [mem_arrivals_record hD]
    simp only [List.mem_singleton, exists_eq_left, leadsAny_singleton, Arc.near, Arc.far]
    constructor
    · intro h
      obtain ⟨a, ha, hn, hcur, rfl, j, hj, hat⟩ := h
      have hlayer := (hf.current _).mp hcur
      -- a vertex met earlier would have left at least as much of the budget
      have hout : ¬ Within (Leads (· ∈ arcs) .ancestor) (· ∈ S) i a.parent := by
        intro hw
        obtain ⟨m, hm, hat'⟩ := hw.exists_at
        exact hnew ((hf.reached _).mpr ⟨m, hm, hat', j, by omega, hat.1⟩)
      exact ⟨hlayer.1.succ_of_step ⟨a, ha, rfl, rfl, hn, hv⟩ hout, j, by omega, hat.1⟩
    · intro h
      obtain ⟨hat, j, hj, hw⟩ := h
      -- the vertex before can reach the destinations by way of this one
      obtain ⟨u, hu, a, ha, rfl, rfl, hn, _⟩ := hat.exists_pred
      obtain ⟨j', hj', hat'⟩ := hw.exists_at
      have hcur : a.child ∈ f.current :=
        (hf.current _).mpr ⟨hu, j + 1, by omega, hw.snoc ⟨a, ha, rfl, rfl, hv, hn⟩⟩
      exact ⟨a, ha, hn, hcur, rfl, j', by omega, hat'⟩
  idle := arrivals_of_idle

theorem shows_restart {among : List Value → List Value} (hD : .null ∉ D)
    (hamong : SourcesAmong among S (record [.descendant] arcs budget 1 (.start D) []).1.reached) :
    ((record [.descendant] arcs budget 1 (.start D) []).1.restart among).Shows
      (DirectedLayer arcs S D budget) 0 := by
  apply shows_start
  intro v
  rw [hamong v, mem_reached_record hD, leadsAny_singleton, DirectedLayer, At.zero_iff]
  constructor
  · exact fun ⟨hv, hw⟩ => ⟨hv, budget, by omega, hw⟩
  · exact fun ⟨hv, j, hj, hw⟩ => ⟨hv, hw.mono (by omega)⟩

end Frontier

section Directed

variable {E : Arc → Prop} {arcs : List Arc} {S D : List Value} {budget : Nat}
  {among : List Value → List Value}

open Frontier

theorem mem_reached_directedWalks (hS : .null ∉ S) (hD : .null ∉ D)
    (hamong : SourcesAmong among S (record [.descendant] arcs budget 1 (.start D) []).1.reached)
    (v : Value) :
    v ∈ (directedWalks arcs among D budget).1.reached ↔
      OnWalk (· ∈ arcs) (· ∈ S) (· ∈ D) budget v := by
  change v ∈ (retrace _ _ _ _ _ _ _).1.reached ↔ _
  rw [retrace_eq_sweep, mem_reached_sweep (directed_layers hS hD) (shows_restart hD hamong),
    onWalk_iff]
  constructor
  · intro h
    obtain ⟨i, _, hat, j, hj, hw⟩ := h
    exact ⟨i, j, hj, hat.1, hw⟩
  · intro h
    obtain ⟨i, j, hj, hi, hw⟩ := h
    obtain ⟨i', hi', hat⟩ := hi.exists_at
    exact ⟨i', by omega, hat, j, by omega, hw⟩

/-- A stage takes the edges that lead on within the budget, also to vertices reached before. -/
theorem mem_stage_edges (hS : .null ∉ S) (hD : .null ∉ D) {i : Nat} {f : Frontier}
    (hf : f.Shows (DirectedLayer arcs S D budget) i) (id : Value) :
    id ∈ Stage.edges ⟨f.current, f.arrivals [.ancestor]
        (record [.descendant] arcs budget 1 (.start D) []).2 budget i⟩ arcs ↔
      ∃ a ∈ arcs, a.id = id ∧ DirectedLayer arcs S D budget i a.child ∧
        ∃ j, i + 1 + j ≤ budget ∧ At (Leads (· ∈ arcs) .descendant) (· ∈ D) j a.parent := by
  simp only [Stage.edges, List.mem_map, List.mem_filter, Bool.and_eq_true, Value.memberOf_iff,
    mem_arrivals_record hD, List.mem_singleton, exists_eq_left, leadsAny_singleton, Arc.near,
    Arc.far, hf.current]
  constructor
  · intro h
    obtain ⟨a, ⟨ha, ⟨_, hcur⟩, _, b, _, _, _, hparent, j, hj, hat⟩, hid⟩ := h
    exact ⟨a, ha, hid, hcur, j, by omega, hparent ▸ hat⟩
  · intro h
    obtain ⟨a, ha, hid, hcur, j, hj, hat⟩ := h
    have hc : a.child ≠ .null := (directed_layers hS hD).ne_null hcur
    have hp : a.parent ≠ .null := hat.1.ne_null (fun _ _ => Leads.ne_null) hD
    exact ⟨a, ⟨ha, ⟨hc, hcur⟩, hp, a, ha, hc, hcur, rfl, j, by omega, hat⟩, hid⟩

theorem mem_edges_directedWalks (hS : .null ∉ S) (hD : .null ∉ D)
    (hamong : SourcesAmong among S (record [.descendant] arcs budget 1 (.start D) []).1.reached)
    (id : Value) :
    id ∈ (directedWalks arcs among D budget).2.flatMap (·.edges arcs) ↔
      ∃ a ∈ arcs, a.id = id ∧ TakenByWalk (· ∈ arcs) (· ∈ S) (· ∈ D) budget a := by
  let N (i : Nat) (id : Value) : Prop :=
    ∃ a ∈ arcs, a.id = id ∧ DirectedLayer arcs S D budget i a.child ∧
      ∃ j, i + 1 + j ≤ budget ∧ At (Leads (· ∈ arcs) .descendant) (· ∈ D) j a.parent
  have hlayer {i : Nat} {id : Value} (h : N i id) : ∃ v, DirectedLayer arcs S D budget i v := by
    obtain ⟨a, _, _, hcur, _⟩ := h
    exact ⟨_, hcur⟩
  change id ∈ (retrace _ _ _ _ _ _ _).2.flatMap _ ↔ _
  -- the ids of a stage are read off at once, so the search notes them instead of the stages
  rw [retrace_eq_sweep, sweep, flatMap_loop, ← sweep, mem_notes_sweep (N := N)
    (directed_layers hS hD) ?_ hlayer (shows_restart hD hamong)]
  · simp only [takenByWalk_iff]
    constructor
    · intro h
      obtain h | ⟨i, _, _, a, ha, hid, hcur, j, hj, hat⟩ := h
      · simp at h
      · exact ⟨a, ha, hid, i, j, hj, hcur.1.1, hat.1⟩
    · intro h
      obtain ⟨a, ha, hid, i, j, hm, hi, hj⟩ := h
      -- both ends are met by shortest walks, which leave no less of the budget
      obtain ⟨i', hi', hati⟩ := hi.exists_at
      obtain ⟨j', hj', hatj⟩ := hj.exists_at
      have hback : Leads (· ∈ arcs) .descendant a.parent a.child :=
        ⟨a, ha, rfl, rfl, hj.ne_null (fun _ _ => Leads.ne_null) hD,
          hi.ne_null (fun _ _ => Leads.ne_null) hS⟩
      have hcur : DirectedLayer arcs S D budget i' a.child :=
        ⟨hati, j' + 1, by omega, hatj.1.snoc hback⟩
      exact .inr ⟨i', by omega, by omega, a, ha, hid, hcur, j', by omega, hatj⟩
  · intro i f hf id
    simp only [List.flatMap_singleton]
    exact mem_stage_edges hS hD hf id

end Directed

/-! ## The instruction -/

namespace Environment

variable {env : Environment} {s : Store} {target : String} {tables : TablePair}
  {subject src dst : GraphRef} {es S D : List Value}

/-- The instruction leaves what walks pass and what they take. -/
theorem takes_simplePath (hscratch : s.CanScratch) (htarget : env.Fresh s.database target tables)
    (hedges : env.HasEdgeTable s.database) (hsubject : env.Holds s.database subject .edge es)
    (hsrc : env.Holds s.database src .vertex S) (hdst : env.Holds s.database dst .vertex D)
    (hS : .null ∉ S) (hD : .null ∉ D) (m : Nat) :
    (env.simplePath (.named target) subject src dst m).takes m
      (fun s' =>
        env.schema.ListsOnce s'.database tables.vertices
          (OnWalk (env.HasEdge s.database subject) (· ∈ S) (· ∈ D) m) ∧
        env.schema.ListsOnce s'.database tables.edges
          (fun id => ∃ a, env.HasEdge s.database subject a ∧ a.id = id ∧
            TakenByWalk (env.HasEdge s.database subject) (· ∈ S) (· ∈ D) m a) ∧
        Database.SameBut [tables.vertices, tables.edges] s.database s'.database) s := by
  obtain ⟨paths, hpaths, hscope, hsources, hdestinations⟩ := exists_pathTables hsubject hsrc hdst
  have hdepth : ¬ (m : Int) < 0 := by omega
  unfold simplePath
  refine .bind (.ofExcept htarget.resolves ?_)
  simp only [hdepth, if_false, Int.toNat_natCast]
  refine .bind (.ofExcept hpaths (.withScratch fun request s₁ hs₁ => ?_))
  refine .bind (.createScratches (hs₁.canScratch hscratch) (by decide) fun s₂ hs₂ => ?_)
  have hdata : s₂.database = s.database := (hs₁.trans hs₂).database
  refine .bind (.seeds (hdata ▸ hdestinations) (.bind (.arcsFor (hdata ▸ hedges)
    (hdata ▸ hsubject) hscope fun arcs harcs hall => .bind (.seedsAmong (hdata ▸ hsources)
    hS fun among hamong => .test hdata fun _ => ?_))))
  rw [hdata] at harcs hall
  have hsome := hamong _ (keeps_record hedges harcs hdst.keeps hD [.descendant] m)
  have hvertex := mem_reached_directedWalks hS hD hsome
  have hedge := mem_edges_directedWalks hS hD hsome
  -- from here on it does not matter how the search found what it did
  generalize directedWalks arcs among D m = found at hvertex hedge
  obtain ⟨f, stages⟩ := found
  have hstored : env.schema.idAffinity.Keeps (stages.flatMap (·.edges arcs)) := by
    intro id hid
    obtain ⟨a, ha, rfl, _⟩ := (hedge id).mp hid
    exact (harcs a ha).keeps hedges _ (by simp)
  have hids : .null ∉ stages.flatMap (·.edges arcs) := by
    intro hid
    obtain ⟨a, ha, hid, _⟩ := (hedge _).mp hid
    exact (harcs a ha).id_ne_null hedges hid
  refine .bind (.insertEach (hdata ▸ htarget.listsOnce .edge) hstored hids fun s₃ he hs => ?_)
  rw [hdata] at hs
  have hv := (htarget.listsOnce .vertex).of_same hs (by simpa using htarget.parts)
  refine .insertFound hv (by simp) ?_ ?_ fun db hv' hs' s₄ hs₄ => ?_
  · intro v hv
    obtain ⟨_, _, _, hw, _⟩ := onWalk_iff.mp ((hvertex v).mp hv)
    rw [← leadsAny_singleton] at hw
    exact hedges.keeps_of_within harcs hsrc.keeps hw
  · intro hv
    obtain ⟨_, _, _, hw, _⟩ := onWalk_iff.mp ((hvertex _).mp hv)
    exact hw.ne_null (fun _ _ => Leads.ne_null) hS rfl
  have he' := he.of_same hs' (by simpa using htarget.parts.symm)
  rw [hs₄.database]
  refine ⟨hv'.congr fun v => ?_, he'.congr fun id => ?_, ?_⟩
  · rw [false_or, hvertex]
    exact onWalk_congr hall
  · rw [hedge]
    exact exists_takenByWalk_congr hall
  · exact (hs.mono (by simp)).trans (hs'.mono (by simp))

end Environment
end Provenance
