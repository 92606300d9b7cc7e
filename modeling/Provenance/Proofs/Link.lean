-- SUMMARY: The vertices and edges that a link search leaves in a fresh target, and the budget it is refused with.
import Provenance.Proofs.Retrace
import Provenance.Proofs.SmallWorlds

/-!
# Links

A link search follows edges either way. Its budget is one less than the length of the walks that it
is asked for, so of a vertex on its way it asks that the distances from the sources and from the
destinations leave one edge to spare. From such a vertex that leaves two it still takes one step to
every neighbour. What it finds does not depend on which of the two sets are called the sources.
-/
namespace Provenance

/-- A step along an edge, either way. -/
def Links (E : Arc → Prop) (u v : Value) : Prop := Leads E .ancestor u v ∨ Leads E .descendant u v

namespace Links

variable {E : Arc → Prop} {u v : Value}

theorem symm (h : Links E u v) : Links E v u := by
  cases h with
  | inl h =>
    exact .inr (leads_descendant_iff.mpr h)
  | inr h =>
    exact .inl (leads_descendant_iff.mp h)

theorem ne_null (h : Links E u v) : v ≠ .null := by
  rcases h with h | h <;> exact Leads.ne_null h

theorem leadsAny_down_up : LeadsAny E [.descendant, .ancestor] = Links E := by
  funext u v
  simp [LeadsAny, Links, or_comm]

theorem walk_reverse {n : Nat} (h : Walk (Links E) n u v) : Walk (Links E) n v u :=
  h.reverse fun _ _ => symm

end Links

/-! ## What lies near both ends -/

/-- The distances of the vertex from both sets leave `k` of `m` edges. -/
def NearBoth (E : Arc → Prop) (S D : Value → Prop) (m k : Nat) (v : Value) : Prop :=
  ∃ i j, i + j + k ≤ m ∧ Within (Links E) S i v ∧ Within (Links E) D j v

/-- The vertex is near enough to both sets, or a neighbour is nearer. -/
def InLink (E : Arc → Prop) (S D : Value → Prop) (m : Nat) (v : Value) : Prop :=
  NearBoth E S D m 1 v ∨ ∃ w, Links E w v ∧ NearBoth E S D m 2 w

section Near

variable {E E' : Arc → Prop} {S D : Value → Prop} {m k : Nat} {v : Value}

theorem NearBoth.swap (h : NearBoth E S D m k v) : NearBoth E D S m k v := by
  obtain ⟨i, j, hm, hi, hj⟩ := h
  exact ⟨j, i, by omega, hj, hi⟩

theorem nearBoth_iff_distance : NearBoth E S D m k v ↔
    distanceFrom (Links E) S v + distanceFrom (Links E) D v + k ≤ m := by
  simp only [NearBoth, add_add_le_natCast_iff, distanceFrom_le_iff]

theorem InLink.swap (h : InLink E S D m v) : InLink E D S m v := by
  rcases h with h | ⟨w, hw, h⟩
  · exact .inl h.swap
  · exact .inr ⟨w, hw, h.swap⟩

theorem inLink_comm : InLink E S D m = InLink E D S m := by
  funext v
  exact propext ⟨InLink.swap, InLink.swap⟩

theorem InLink.within (h : InLink E S D m v) : ∃ i, Within (Links E) S i v := by
  rcases h with ⟨i, _, _, hi, _⟩ | ⟨w, hw, i, _, _, hi, _⟩
  · exact ⟨i, hi⟩
  · exact ⟨i + 1, hi.snoc hw⟩

/-- Every vertex of a link lies on a walk of at most `m` edges between the two sets. -/
theorem InLink.onWalk (h : InLink E S D m v) : ∃ i j, i + j ≤ m ∧
    ∃ s d, S s ∧ D d ∧ Walk (Links E) i s v ∧ Walk (Links E) j v d := by
  rcases h with ⟨i, j, hm, ⟨i', hi', s, hs, hi⟩, j', hj', d, hd, hj⟩ |
    ⟨w, hw, i, j, hm, ⟨i', hi', s, hs, hi⟩, j', hj', d, hd, hj⟩
  · exact ⟨i', j', by omega, s, d, hs, hd, hi, Links.walk_reverse hj⟩
  · have hback := Links.walk_reverse hj
    exact ⟨i' + 1, j' + 1, by omega, s, d, hs, hd, hi.snoc hw, .cons hw.symm hback⟩

theorem NearBoth.exists_source (h : NearBoth E S D m k v) :
    ∃ s, S s ∧ ∃ j, j + k ≤ m ∧ Within (Links E) D j s := by
  obtain ⟨i, j, hm, ⟨i', hi', s, hs, hi⟩, j', hj', d, hd, hj⟩ := h
  exact ⟨s, hs, j' + i', by omega, j' + i', le_rfl, d, hd, hj.append (Links.walk_reverse hi)⟩

/-- There is no link exactly when no source is near a destination. -/
theorem forall_not_inLink_iff : (∀ v, ¬ InLink E S D m v) ↔
    ¬ ∃ s, S s ∧ ∃ j, j + 1 ≤ m ∧ Within (Links E) D j s := by
  constructor
  · intro h hs
    obtain ⟨s, hs, j, hj, hw⟩ := hs
    exact h s (.inl ⟨0, j, by omega, Within.zero_iff.mpr hs, hw⟩)
  · intro h v hv
    rcases hv with hv | ⟨w, _, hv⟩
    · exact h hv.exists_source
    · obtain ⟨s, hs, j, hj, hw⟩ := hv.exists_source
      exact h ⟨s, hs, j, by omega, hw⟩

/-- Without a step to take the edges do not matter. -/
theorem inLink_congr (h : m ≠ 0 → ∀ a, E a ↔ E' a) :
    InLink E S D (m + 1) v ↔ InLink E' S D (m + 1) v := by
  by_cases hm : m = 0
  · subst hm
    have hzero (E : Arc → Prop) : InLink E S D (0 + 1) v ↔ S v ∧ D v := by
      constructor
      · intro h
        rcases h with ⟨i, j, hm, hi, hj⟩ | ⟨_, _, i, j, hm, _⟩
        · obtain ⟨rfl, rfl⟩ : i = 0 ∧ j = 0 := by omega
          exact ⟨Within.zero_iff.mp hi, Within.zero_iff.mp hj⟩
        · omega
      · exact fun ⟨hs, hd⟩ => .inl ⟨0, 0, by omega, Within.zero_iff.mpr hs, Within.zero_iff.mpr hd⟩
    rw [hzero, hzero]
  · obtain rfl : E = E' := funext fun a => propext (h hm a)
    rfl

end Near

/-! ## Both searches -/

namespace Frontier

variable {arcs : List Arc} {S D : List Value} {budget : Nat}

/-- The layers of the second search. A vertex for which the budget is exceeded is in a layer if a
neighbour is near enough; from there no step leads on. -/
def LinkLayer (arcs : List Arc) (S D : List Value) (budget i : Nat) (v : Value) : Prop :=
  At (Links (· ∈ arcs)) (· ∈ S) i v ∧
    ((∃ j, i + j ≤ budget ∧ Within (Links (· ∈ arcs)) (· ∈ D) j v) ∨
      ∃ w, Links (· ∈ arcs) w v ∧ NearBoth (· ∈ arcs) (· ∈ S) (· ∈ D) (budget + 1) 2 w)

/-- Whichever way an edge is taken, either end may be the one at which it was met. -/
theorem exists_near_iff {p : Value → Prop} (a : Arc) (way : Way) :
    (∃ way' ∈ [Way.descendant, .ancestor], p (a.near way')) ↔ p (a.near way) ∨ p (a.far way) := by
  cases way with
  | ancestor => simp [Arc.near, Arc.far, or_comm]
  | descendant => simp [Arc.near, Arc.far]

/-- A step is taken where one of its ends was met close enough to the destinations. -/
theorem mem_arrivals_link (hD : .null ∉ D) {f : Frontier} {i : Nat} {v : Value} (hv : v ≠ .null) :
    v ∈ f.arrivals [.ancestor, .descendant]
        (record [.descendant, .ancestor] arcs budget 1 (.start D) []).2 budget i ↔
      ∃ u ∈ f.current, Links (· ∈ arcs) u v ∧ ∃ j, j + 1 + i ≤ budget ∧
        (At (Links (· ∈ arcs)) (· ∈ D) j u ∨ At (Links (· ∈ arcs)) (· ∈ D) j v) := by
  rw [mem_arrivals_record hD, Links.leadsAny_down_up]
  constructor
  · intro h
    obtain ⟨way, hway, a, ha, hn, hcur, rfl, way', hway', j, hj, hat⟩ := h
    refine ⟨a.near way, hcur, ?_, j, hj, (exists_near_iff a way).mp ⟨way', hway', hat⟩⟩
    cases way with
    | ancestor => exact .inl ⟨a, ha, rfl, rfl, hn, hv⟩
    | descendant => exact .inr ⟨a, ha, rfl, rfl, hn, hv⟩
  · intro h
    obtain ⟨u, hcur, hlink, j, hj, hat⟩ := h
    -- the two ways of an edge are the two cases of a link
    rcases hlink with ⟨a, ha, rfl, rfl, hn, _⟩ | ⟨a, ha, rfl, rfl, hn, _⟩
    · obtain ⟨way', hway', hat⟩ := (exists_near_iff a .ancestor).mpr hat
      exact ⟨.ancestor, by simp, a, ha, hn, hcur, rfl, way', hway', j, hj, hat⟩
    · obtain ⟨way', hway', hat⟩ := (exists_near_iff a .descendant).mpr hat
      exact ⟨.descendant, by simp, a, ha, hn, hcur, rfl, way', hway', j, hj, hat⟩

/-- A vertex of the next layer is entered from a vertex that leaves the budget for the step. -/
theorem LinkLayer.exists_pred {i : Nat} {v : Value} (h : LinkLayer arcs S D budget (i + 1) v) :
    ∃ u, LinkLayer arcs S D budget i u ∧ Links (· ∈ arcs) u v ∧ ∃ j, j + 1 + i ≤ budget ∧
      (At (Links (· ∈ arcs)) (· ∈ D) j u ∨ At (Links (· ∈ arcs)) (· ∈ D) j v) := by
  obtain ⟨hat, hclass⟩ := h
  -- where `v` itself leaves enough, any shortest walk to it will do
  have hnear {j : Nat} (hj : i + 1 + j ≤ budget) (hw : Within (Links (· ∈ arcs)) (· ∈ D) j v) :
      ∃ u, LinkLayer arcs S D budget i u ∧ Links (· ∈ arcs) u v ∧ ∃ j, j + 1 + i ≤ budget ∧
        (At (Links (· ∈ arcs)) (· ∈ D) j u ∨ At (Links (· ∈ arcs)) (· ∈ D) j v) := by
    obtain ⟨u, hu, hlink⟩ := hat.exists_pred
    obtain ⟨j', hj', hatD⟩ := hw.exists_at
    exact ⟨u, ⟨hu, .inl ⟨j + 1, by omega, hw.snoc hlink.symm⟩⟩, hlink, j', by omega, .inr hatD⟩
  rcases hclass with ⟨j, hj, hw⟩ | ⟨w, hlink, i', j', hm, hi, hj⟩
  · exact hnear hj hw
  · have hle : i + 1 ≤ i' + 1 := hat.le_of_within (hi.snoc hlink)
    -- either `w` is in the layer before, or `v` leaves more of the budget than it seems
    by_cases hwi : Within (Links (· ∈ arcs)) (· ∈ S) i w
    · have hwat : At (Links (· ∈ arcs)) (· ∈ S) i w :=
        ⟨hwi, fun k hk hwk => absurd (hat.le_of_within (hwk.snoc hlink)) (by omega)⟩
      obtain ⟨j'', hj'', hatD⟩ := hj.exists_at
      exact ⟨w, ⟨hwat, .inl ⟨j', by omega, hj⟩⟩, hlink, j'', by omega, .inl hatD⟩
    · have hne : i' ≠ i := fun he => hwi (he ▸ hi)
      exact hnear (by omega) (hj.snoc hlink)

theorem link_layers (hS : .null ∉ S) (hD : .null ∉ D) :
    Layers (fun i f => f.arrivals [.ancestor, .descendant]
        (record [.descendant, .ancestor] arcs budget 1 (.start D) []).2 budget i)
      (LinkLayer arcs S D budget) where
  ne_null h := h.1.1.ne_null (fun _ _ => Links.ne_null) hS
  unique h h' := h.1.unique h'.1
  arrives := by
    intro i f v hf hv hnew
    rw [mem_arrivals_link hD hv]
    constructor
    · intro h
      obtain ⟨u, hcur, hlink, j, hj, hatD⟩ := h
      have hu := (hf.current u).mp hcur
      -- whenever `v` is met, it is in a layer
      have hclass {k : Nat} (hk : k ≤ i + 1) (hat : At (Links (· ∈ arcs)) (· ∈ S) k v) :
          LinkLayer arcs S D budget k v := by
        cases hatD with
        | inl hatD =>
          exact ⟨hat, .inr ⟨u, hlink, i, j, by omega, hu.1.1, hatD.1⟩⟩
        | inr hatD =>
          exact ⟨hat, .inl ⟨j, by omega, hatD.1⟩⟩
      refine hclass le_rfl (hu.1.succ_of_step hlink fun hw => ?_)
      obtain ⟨k, hk, hat⟩ := hw.exists_at
      exact hnew ((hf.reached v).mpr ⟨k, hk, hclass (by omega) hat⟩)
    · intro h
      obtain ⟨u, hu, hlink, hstep⟩ := h.exists_pred
      exact ⟨u, (hf.current u).mpr hu, hlink, hstep⟩
  idle := arrivals_of_idle

end Frontier

theorem mem_reached_undirectedWalks {arcs : List Arc} {S D : List Value} {budget : Nat}
    {among : List Value → List Value} (hS : .null ∉ S) (hD : .null ∉ D)
    (hamong : SourcesAmong among S
      (Frontier.record [.descendant, .ancestor] arcs budget 1 (.start D) []).1.reached)
    (v : Value) :
    v ∈ (undirectedWalks arcs among D budget).reached ↔
      InLink (· ∈ arcs) (· ∈ S) (· ∈ D) (budget + 1) v := by
  have hlayers : Frontier.Layers _ (Frontier.LinkLayer arcs S D budget) :=
    Frontier.link_layers hS hD
  have hstart : (Frontier.restart among (Frontier.record [.descendant, .ancestor] arcs budget 1
      (.start D) []).1).Shows (Frontier.LinkLayer arcs S D budget) 0 := by
    apply Frontier.shows_start
    intro v
    rw [hamong v, Frontier.mem_reached_record hD, Links.leadsAny_down_up, Frontier.LinkLayer,
      At.zero_iff]
    constructor
    · exact fun ⟨hv, hw⟩ => ⟨hv, .inl ⟨budget, by omega, hw⟩⟩
    · intro h
      rcases h with ⟨hv, ⟨j, hj, hw⟩ | ⟨w, hlink, i, j, hm, _, hj⟩⟩
      · exact ⟨hv, hw.mono (by omega)⟩
      · exact ⟨hv, (hj.snoc hlink).mono (by omega)⟩
  change v ∈ (Frontier.retrace _ _ _ _ _ _ _).1.reached ↔ _
  rw [Frontier.retrace_eq_sweep, Frontier.mem_reached_sweep hlayers hstart]
  constructor
  · intro h
    obtain ⟨i, hi, hat, ⟨j, hj, hw⟩ | hnear⟩ := h
    · exact .inl ⟨i, j, by omega, hat.1, hw⟩
    · exact .inr hnear
  · intro h
    rcases h with ⟨i, j, hm, hi, hj⟩ | ⟨w, hlink, i, j, hm, hi, hj⟩
    · obtain ⟨i', hi', hat⟩ := hi.exists_at
      exact ⟨i', by omega, hat, .inl ⟨j, by omega, hj⟩⟩
    · obtain ⟨i', hi', hat⟩ := (hi.snoc hlink).exists_at
      exact ⟨i', by omega, hat, .inr ⟨w, hlink, i, j, hm, hi, hj⟩⟩

/-! ## The instruction -/

namespace Environment

variable {env : Environment} {s : Store} {target : String} {tables : TablePair}
  {subject src dst : GraphRef} {es S D : List Value} {m : Nat}

/-- The instruction leaves what lies in a link, and all edges between. -/
theorem takes_link (hscratch : s.CanScratch) (htarget : env.Fresh s.database target tables)
    (hedges : env.HasEdgeTable s.database) (hsubject : env.Holds s.database subject .edge es)
    (hsrc : env.Holds s.database src .vertex S) (hdst : env.Holds s.database dst .vertex D)
    (hS : .null ∉ S) (hD : .null ∉ D) (hm : 1 ≤ m) :
    (env.link (.named target) subject src dst m).takes (m - 1)
      (fun s' =>
        env.schema.ListsOnce s'.database tables.vertices
          (InLink (env.HasEdge s.database subject) (· ∈ S) (· ∈ D) m) ∧
        env.schema.ListsOnce s'.database tables.edges
          (fun id => ∃ a, env.HasEdge s.database subject a ∧ a.id = id ∧
            InLink (env.HasEdge s.database subject) (· ∈ S) (· ∈ D) m a.child ∧
            InLink (env.HasEdge s.database subject) (· ∈ S) (· ∈ D) m a.parent) ∧
        Database.SameBut [tables.vertices, tables.edges] s.database s'.database) s := by
  obtain ⟨n, rfl⟩ : ∃ n, m = n + 1 := ⟨m - 1, by omega⟩
  obtain ⟨paths, hpaths, hscope, hsources, hdestinations⟩ := exists_pathTables hsubject hsrc hdst
  have hdepth : ¬ ((n + 1 : ℕ) : Int) ≤ 0 := by omega
  have hbudget : ((n + 1 : ℕ) : Int) - 1 = n := by omega
  unfold link
  refine .bind (.ofExcept htarget.resolves ?_)
  simp only [hdepth, if_false, Int.toNat_natCast, Nat.add_sub_cancel, hbudget]
  refine .bind (.ofExcept hpaths (.withScratch fun request s₁ hs₁ => ?_))
  refine .bind (.createScratches (hs₁.canScratch hscratch) (by decide) fun s₂ hs₂ => ?_)
  have hdata : s₂.database = s.database := (hs₁.trans hs₂).database
  refine .bind (.seeds (hdata ▸ hdestinations) (.bind (.arcsFor (hdata ▸ hedges)
    (hdata ▸ hsubject) hscope fun arcs harcs hall => .bind (.seedsAmong (hdata ▸ hsources)
    hS fun among hamong => .test hdata fun _ => ?_))))
  rw [hdata] at harcs hall
  have hsome := hamong _ (keeps_record hedges harcs hdst.keeps hD [.descendant, .ancestor] n)
  have hvertex := mem_reached_undirectedWalks hS hD hsome
  -- from here on it does not matter how the search found what it did
  generalize (undirectedWalks arcs among D n).reached = found at hvertex
  have hkeeps : env.schema.idAffinity.Keeps found := by
    intro v hv
    obtain ⟨_, hw⟩ := ((hvertex v).mp hv).within
    rw [← Links.leadsAny_down_up] at hw
    exact hedges.keeps_of_within harcs hsrc.keeps hw
  have hnull : .null ∉ found := by
    intro hv
    obtain ⟨_, hw⟩ := ((hvertex _).mp hv).within
    exact hw.ne_null (fun _ _ => Links.ne_null) hS rfl
  refine .insertInduced (hdata ▸ htarget) (hdata ▸ hedges) (hdata ▸ hsubject) hscope hkeeps hnull
    fun db hv he hs s₃ hs₃ => ?_
  rw [hdata] at he hs
  rw [hs₃.database]
  refine ⟨hv.congr fun v => ?_, he.congr fun id => ?_, hs⟩
  · rw [hvertex]
    exact inLink_congr hall
  · simp only [hvertex, inLink_congr hall]

/-- The middle of a walk of two edges is near to both ends. -/
theorem nearBoth_middle {m : Nat} (hm : 3 ≤ m) :
    NearBoth (· ∈ SmallWorld.chain.map SmallWorld.arc) (· ∈ [.text "a"]) (· ∈ [.text "c"]) m 1
      (.text "b") := by
  have hfirst : Links (· ∈ SmallWorld.chain.map SmallWorld.arc) (.text "a") (.text "b") :=
    .inl SmallWorld.chain_first
  have hsecond : Links (· ∈ SmallWorld.chain.map SmallWorld.arc) (.text "b") (.text "c") :=
    .inl SmallWorld.chain_second
  exact ⟨1, 1, hm, ⟨1, le_rfl, _, by simp, .cons hfirst (.nil _)⟩,
    ⟨1, le_rfl, _, by simp, .cons hsecond.symm (.nil _)⟩⟩

end Environment
end Provenance
