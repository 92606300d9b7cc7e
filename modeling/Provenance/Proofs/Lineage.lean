-- SUMMARY: The vertices and edges that a lineage search leaves in a fresh target.
import Provenance.Proofs.SmallWorlds

/-!
# Lineage

A lineage search goes along one way after another. Along each it finds the vertices that walks of at
most `k` edges lead to, and the edges that can be taken before the last step. Together these are
exactly what the instruction leaves in a fresh target, whatever cycles the edges form.
-/
namespace Provenance

/-- The vertices that walks of at most `k` edges lead to, each along a single way. -/
def InLineage (E : Arc → Prop) (ways : List Way) (S : Value → Prop) (k : Nat) (v : Value) : Prop :=
  ∃ way ∈ ways, Within (Leads E way) S k v

/-- The ids of the edges that start where walks of fewer than `k` edges lead to. -/
def CrossedByLineage (E : Arc → Prop) (ways : List Way) (S : Value → Prop) (k : Nat) (id : Value) :
    Prop :=
  ∃ way ∈ ways, ∃ a, E a ∧ a.id = id ∧ ∃ n < k, Within (Leads E way) S n (a.near way)

/-! ## One way -/

namespace Frontier

variable {E : Arc → Prop} {arcs : List Arc} {seeds : List Value} {k : Nat}

theorem mem_reached_explore (way : Way) (hE : k ≠ 0 → ∀ a, a ∈ arcs ↔ E a)
    (hnull : .null ∉ seeds) (v : Value) :
    v ∈ (explore way arcs k (.start seeds) []).1.reached ↔
      Within (Leads E way) (· ∈ seeds) k v := by
  have hlayers : Layers (fun _ f => f.reach [way] arcs)
      (At (LeadsAny (· ∈ arcs) [way]) (· ∈ seeds)) := layers_at hnull
  have hstart : (start seeds).Shows (At (LeadsAny (· ∈ arcs) [way]) (· ∈ seeds)) 0 :=
    shows_start fun v => At.zero_iff.symm
  rw [explore_eq_sweep way arcs k 0, mem_reached_sweep hlayers hstart, Nat.zero_add,
    ← Within.iff_exists_at, leadsAny_singleton]
  exact Within.congr fun hk u v => by simp only [Leads, hE hk]

theorem mem_crossed_explore (way : Way) (hE : k ≠ 0 → ∀ a, a ∈ arcs ↔ E a)
    (hnull : .null ∉ seeds) (id : Value) :
    id ∈ (explore way arcs k (.start seeds) []).2 ↔
      ∃ a, E a ∧ a.id = id ∧ ∃ n < k, Within (Leads E way) (· ∈ seeds) n (a.near way) := by
  let C := At (LeadsAny (· ∈ arcs) [way]) (· ∈ seeds)
  have hlayers : Layers (fun _ f => f.reach [way] arcs) C := layers_at hnull
  have hstart : (start seeds).Shows C 0 := shows_start fun v => At.zero_iff.symm
  have hnotes {i : Nat} {f : Frontier} (hf : f.Shows C i) (id : Value) :
      id ∈ (f.exits way arcs).map (·.id) ↔ ∃ a ∈ arcs, a.id = id ∧ C i (a.near way) := by
    simp only [List.mem_map, mem_exits, hf.current]
    constructor
    · exact fun ⟨a, ⟨ha, _, hat⟩, hid⟩ => ⟨a, ha, hid, hat⟩
    · exact fun ⟨a, ha, hid, hat⟩ => ⟨a, ⟨ha, hlayers.ne_null hat, hat⟩, hid⟩
  have hlayer {i : Nat} {id : Value} (h : ∃ a ∈ arcs, a.id = id ∧ C i (a.near way)) :
      ∃ v, C i v := by
    obtain ⟨a, _, _, hat⟩ := h
    exact ⟨_, hat⟩
  have harcs (hk : k ≠ 0) : (· ∈ arcs) = E := funext fun a => propext (hE hk a)
  rw [explore_eq_sweep way arcs k 0, mem_notes_sweep hlayers hnotes hlayer hstart]
  simp only [List.not_mem_nil, false_or, Nat.zero_le, true_and, Nat.zero_add, C, leadsAny_singleton]
  constructor
  · rintro ⟨n, hn, a, ha, hid, hat⟩
    have hk : k ≠ 0 := by omega
    rw [harcs hk] at hat
    exact ⟨a, (hE hk a).mp ha, hid, n, hn, hat.1⟩
  · rintro ⟨a, ha, hid, n, hn, hw⟩
    have hk : k ≠ 0 := by omega
    -- the end may be met before step `n`, and then the edge is crossed at that step
    obtain ⟨m, hm, hat⟩ := hw.exists_at
    rw [← harcs hk] at hat
    exact ⟨m, by omega, a, (hE hk a).mpr ha, hid, hat⟩

end Frontier

/-! ## All ways -/

theorem inLineage_append {E : Arc → Prop} {ways : List Way} {way : Way} {S : Value → Prop} {k : Nat}
    {v : Value} : InLineage E (ways ++ [way]) S k v ↔
      InLineage E ways S k v ∨ Within (Leads E way) S k v := by
  simp [InLineage, or_and_right, exists_or]

theorem crossedByLineage_append {E : Arc → Prop} {ways : List Way} {way : Way} {S : Value → Prop}
    {k : Nat} {id : Value} : CrossedByLineage E (ways ++ [way]) S k id ↔
      CrossedByLineage E ways S k id ∨
        ∃ a, E a ∧ a.id = id ∧ ∃ n < k, Within (Leads E way) S n (a.near way) := by
  simp [CrossedByLineage, or_and_right, exists_or]

@[simp] theorem inLineage_singleton {E : Arc → Prop} {way : Way} {S : Value → Prop} {k : Nat}
    {v : Value} : InLineage E [way] S k v ↔ Within (Leads E way) S k v := by
  simp [InLineage]

@[simp] theorem crossedByLineage_singleton {E : Arc → Prop} {way : Way} {S : Value → Prop} {k : Nat}
    {id : Value} : CrossedByLineage E [way] S k id ↔
      ∃ a, E a ∧ a.id = id ∧ ∃ n < k, Within (Leads E way) S n (a.near way) := by
  simp [CrossedByLineage]

namespace Environment

variable {env : Environment} {s s' : Store} {target : String} {tables : TablePair}
  {subject start : GraphRef} {vs es : List Value} {k : Nat}

/-- A way adds to the target what lies along it from the start. Of the start it is enough to know what
it lists when its turn comes, so the start may be the target. -/
theorem wp_lineageAlong {startTable : String} {edges? : Option String} {request : Nat} {way : Way}
    {p q : Value → Prop} (hscratch : s.CanScratch) (hedges : env.HasEdgeTable s.database)
    (hsubject : env.Holds s.database subject .edge es)
    (hscope : env.restriction? subject .edge = .ok edges?)
    (hstart : env.schema.Lists s.database startTable vs) (hnull : .null ∉ vs)
    (hparts : Name.folded tables.vertices ≠ Name.folded tables.edges)
    (hvertices : env.schema.ListsOnce s.database tables.vertices p) (hp : ¬ p .null)
    (hids : env.schema.ListsOnce s.database tables.edges q) (hq : ¬ q .null) :
    (env.lineageAlong request tables edges? startTable k way).wp
      (fun _ s' => s'.CanScratch ∧
        Database.SameBut [tables.vertices, tables.edges] s.database s'.database ∧
        env.schema.ListsOnce s'.database tables.vertices
          (fun v => p v ∨ InLineage (env.HasEdge s.database subject) [way] (· ∈ vs) k v) ∧
        env.schema.ListsOnce s'.database tables.edges
          (fun id => q id ∨ CrossedByLineage (env.HasEdge s.database subject) [way] (· ∈ vs) k id))
      s := by
  unfold lineageAlong
  refine .bind (.createScratches hscratch (by decide) fun s₁ hs₁ => ?_)
  rw [← hs₁.database] at hedges hsubject hstart hvertices hids ⊢
  refine .bind (.seeds hstart (.bind (.arcsFor hedges hsubject hscope fun arcs _ harcs => ?_)))
  have hvertex := Frontier.mem_reached_explore way harcs hnull
  have hcrossed := Frontier.mem_crossed_explore way harcs hnull
  generalize Frontier.explore way arcs k (.start vs) [] = found at hvertex hcrossed
  obtain ⟨f, crossed⟩ := found
  -- the vertices are written first, then the edges
  refine .bind (.insertFound hvertices hp ?_ ?_ fun db₂ hv₂ hs₂ => ?_)
  · intro v hv
    have hw := (hvertex v).mp hv
    rw [← leadsAny_singleton] at hw
    exact hedges.keeps_of_within (fun _ => id) hstart.keeps hw
  · exact fun hv => ((hvertex _).mp hv).ne_null (fun _ _ => Leads.ne_null) hnull rfl
  refine .insertFound (hids.of_same hs₂ (by simpa using hparts.symm)) hq ?_ ?_ fun db₃ he₃ hs₃ => ?_
  · intro id hid
    obtain ⟨a, ha, rfl, _⟩ := (hcrossed id).mp hid
    exact ha.keeps hedges _ (by simp)
  · intro hid
    obtain ⟨a, ha, hid, _⟩ := (hcrossed _).mp hid
    exact ha.id_ne_null hedges hid
  refine ⟨hs₁.canScratch hscratch, (hs₂.mono (by simp)).trans (hs₃.mono (by simp)), ?_, ?_⟩
  · refine (hv₂.of_same hs₃ (by simpa using hparts)).congr fun v => ?_
    rw [inLineage_singleton, hvertex]
  · exact he₃.congr fun id => by rw [crossedByLineage_singleton, hcrossed]

/-- What is in the target, and what is not changed, when some of the ways are done. -/
structure LineageSoFar (env : Environment) (tables : TablePair) (E : Arc → Prop) (S : Value → Prop)
    (k : Nat) (s : Store) (done : List Way) (s' : Store) : Prop where
  canScratch : s'.CanScratch
  same : Database.SameBut [tables.vertices, tables.edges] s.database s'.database
  vertices : env.schema.ListsOnce s'.database tables.vertices (InLineage E done S k)
  edges : env.schema.ListsOnce s'.database tables.edges (CrossedByLineage E done S k)

/-- What a search reads stays as it is. Where it reads the target, that is and remains without edges
or without vertices to start from. -/
theorem LineageSoFar.holds_subject {S : Value → Prop} {done : List Way}
    (h : env.LineageSoFar tables (env.HasEdge s.database subject) S k s done s')
    (htarget : env.Fresh s.database target tables)
    (hsubject : env.Holds s.database subject .edge es) :
    env.Holds s'.database subject .edge es := by
  refine htarget.holds_of_same h.same hsubject fun hes => h.edges.lists_nil fun id hid => ?_
  obtain ⟨_, _, a, ⟨_, es', _, hes', hin, _⟩, _⟩ := hid
  obtain rfl := hsubject.unique hes'
  simp [hes] at hin

theorem LineageSoFar.holds_start {E : Arc → Prop} {done : List Way}
    (h : env.LineageSoFar tables E (· ∈ vs) k s done s')
    (htarget : env.Fresh s.database target tables)
    (hstart : env.Holds s.database start .vertex vs) : env.Holds s'.database start .vertex vs := by
  refine htarget.holds_of_same h.same hstart fun hvs => h.vertices.lists_nil fun v hv => ?_
  obtain ⟨_, _, _, _, u, hu, _⟩ := hv
  simp [hvs] at hu

theorem LineageSoFar.of_sameData {E : Arc → Prop} {S : Value → Prop} {done : List Way} {s₁ : Store}
    (h : env.LineageSoFar tables E S k s done s') (hs : s'.SameData s₁) :
    env.LineageSoFar tables E S k s done s₁ := by
  refine ⟨hs.canScratch h.canScratch, ?_, ?_, ?_⟩ <;> rw [hs.database]
  · exact h.same
  · exact h.vertices
  · exact h.edges

/-- A way adds to the target what lies along it. -/
theorem LineageSoFar.along {starts : TablePair} {edges? : Option String} {request : Nat}
    {done : List Way} {way : Way}
    (h : env.LineageSoFar tables (env.HasEdge s.database subject) (· ∈ vs) k s done s')
    (htarget : env.Fresh s.database target tables) (hedges : env.HasEdgeTable s.database)
    (hsubject : env.Holds s.database subject .edge es)
    (hscope : env.restriction? subject .edge = .ok edges?)
    (hresolve : env.resolve start = .ok starts) (hstart : env.Holds s.database start .vertex vs)
    (hnull : .null ∉ vs) :
    (env.lineageAlong request tables edges? starts.vertices k way).wp
      (fun _ => env.LineageSoFar tables (env.HasEdge s.database subject) (· ∈ vs) k s
        (done ++ [way])) s' := by
  have hsubject' := h.holds_subject htarget hsubject
  have hE : env.HasEdge s'.database subject = env.HasEdge s.database subject :=
    funext fun a => propext (htarget.hasEdge_of_same h.same hsubject hsubject')
  obtain ⟨starts', hresolve', hlists⟩ := h.holds_start htarget hstart
  obtain rfl : starts = starts' := by simpa [hresolve] using hresolve'
  have hedges' : env.HasEdgeTable s'.database := by
    simpa [HasEdgeTable, htarget.edgeTable_of_same h.same] using hedges
  refine (wp_lineageAlong h.canScratch hedges' hsubject' hscope hlists hnull htarget.parts
    h.vertices ?_ h.edges ?_).mono fun _ s₁ h₁ => ?_
  · rintro ⟨_, _, hw⟩
    exact hw.ne_null (fun _ _ => Leads.ne_null) hnull rfl
  · rintro ⟨_, _, a, ha, hid, _⟩
    exact ha.id_ne_null hedges hid
  obtain ⟨hscratch, hsame, hvertices, hids⟩ := h₁
  rw [hE] at hvertices hids
  refine ⟨hscratch, h.same.trans hsame, hvertices.congr fun v => ?_, hids.congr fun id => ?_⟩
  · rw [inLineage_append, inLineage_singleton]
  · rw [crossedByLineage_append, crossedByLineage_singleton]

/-- After all ways of the direction are done, the target has what lies along any of them. -/
theorem wp_lineage (hscratch : s.CanScratch) (htarget : env.Fresh s.database target tables)
    (hedges : env.HasEdgeTable s.database) (hsubject : env.Holds s.database subject .edge es)
    (hstart : env.Holds s.database start .vertex vs) (hnull : .null ∉ vs)
    (k : Nat) (direction : Direction) :
    (env.lineage (.named target) subject start k direction).wp
      (fun _ => env.LineageSoFar tables (env.HasEdge s.database subject) (· ∈ vs) k s
        direction.ways) s := by
  obtain ⟨edges?, hscope, _⟩ := hsubject.restriction?
  obtain ⟨starts, hresolve, _⟩ := id hstart
  have hdepth : ¬ (k : Int) < 0 := by omega
  unfold lineage
  refine .bind (.ofExcept htarget.resolves ?_)
  simp only [hdepth, if_false, Int.toNat_natCast]
  refine .bind (.ofExcept hscope (.bind (.ofExcept hresolve ?_)))
  refine .withScratch fun request s₁ hs₁ => ?_
  -- the invariant of the loop over the ways, before the first of them
  have hbefore : env.LineageSoFar tables (env.HasEdge s.database subject) (· ∈ vs) k s [] s := by
    refine ⟨hscratch, .refl _ _, ?_, ?_⟩
    · exact (htarget.listsOnce .vertex).congr fun v => by simp [InLineage]
    · exact (htarget.listsOnce .edge).congr fun id => by simp [CrossedByLineage]
  refine (Program.wp.forM (env.LineageSoFar tables (env.HasEdge s.database subject) (· ∈ vs) k s)
    (hbefore.of_sameData hs₁) fun done way s₂ _ h => ?_).mono fun _ s₂ h s₃ hs₃ => ?_
  · exact h.along htarget hedges hsubject hscope hresolve hstart hnull
  · exact h.of_sameData hs₃

/-- A lineage search leaves in a fresh target exactly the vertices that walks of at most `k` edges
lead to and the edges that such walks can take, each once, and changes nothing else. -/
theorem lineage_exact (hscratch : s.CanScratch) (htarget : env.Fresh s.database target tables)
    (hedges : env.HasEdgeTable s.database) (hsubject : env.Holds s.database subject .edge es)
    (hstart : env.Holds s.database start .vertex vs) (hnull : .null ∉ vs)
    (k : Nat) (direction : Direction) :
    (env.lineage (.named target) subject start k direction).wp
      (fun _ s' =>
        env.schema.ListsOnce s'.database tables.vertices
          (InLineage (env.HasEdge s.database subject) direction.ways (· ∈ vs) k) ∧
        env.schema.ListsOnce s'.database tables.edges
          (CrossedByLineage (env.HasEdge s.database subject) direction.ways (· ∈ vs) k) ∧
        Database.SameBut [tables.vertices, tables.edges] s.database s'.database) s :=
  (wp_lineage hscratch htarget hedges hsubject hstart hnull k direction).mono fun _ _ h =>
    ⟨h.vertices, h.edges, h.same⟩

/-- Along a walk of two edges the search comes to its end. -/
theorem lineage_exact_chain :
    Program.wp (do
      SmallWorld.prepare (SmallWorld.world ["a", "b", "c"] SmallWorld.chain) "a" "c"
      SmallWorld.environment.lineage (.named "out") .base (.named "src") (2 : ℕ) .ancestor)
      (fun _ s' => ∃ vs es,
        SmallWorld.environment.schema.Lists s'.database (SmallWorld.tables "out").vertices vs ∧
        SmallWorld.environment.schema.Lists s'.database (SmallWorld.tables "out").edges es ∧
        .text "c" ∈ vs ∧ .text "e2" ∈ es)
      SmallWorld.start := by
  refine .bind ((SmallWorld.wp_prepare (by simp) (by simp) (by decide)).mono fun _ s hs => ?_)
  obtain ⟨es, hsubject⟩ := hs.subject
  refine (lineage_exact hs.canScratch hs.fresh hs.hasEdgeTable hsubject hs.src (by simp) 2
    .ancestor).mono fun _ s' h => ?_
  rw [hs.hasEdge] at h
  obtain ⟨⟨vs, hvs, _, hv⟩, ⟨es, hes, _, he⟩, _⟩ := h
  have hb := Walk.snoc (.nil _) SmallWorld.chain_first
  have hc := hb.snoc SmallWorld.chain_second
  refine ⟨vs, es, hvs, hes, (hv _).mpr ?_, (he _).mpr ?_⟩
  · exact ⟨.ancestor, by simp [Direction.ways], 2, le_rfl, .text "a", by simp, hc⟩
  · exact ⟨.ancestor, by simp [Direction.ways], _, SmallWorld.mem_chain.mpr (.inr rfl), rfl, 1,
      by omega, 1, le_rfl, .text "a", by simp, hb⟩

end Environment
end Provenance
