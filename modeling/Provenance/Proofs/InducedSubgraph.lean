-- SUMMARY: The vertices and edges that a skeleton cuts out of a graph, and cutting once more.
import Provenance.Proofs.Collapse
import Provenance.Proofs.Parallel
import Provenance.Proofs.BaseCopy

/-!
# Induced subgraphs

A skeleton cuts out of a graph its own vertices, the ends of its edges, and all edges between these. The
cut is a skeleton of its own. Its edges are known by their ids only: where an edge has two rows, the
other row may lead out of the cut, and then cutting once more finds another vertex.
-/
namespace Provenance

open Program

/-- The vertices of a graph that a skeleton touches. -/
def InCut (vs ks : List Value) (E : Arc → Prop) (v : Value) : Prop :=
  v ≠ .null ∧ v ∈ vs ∧ (v ∈ ks ∨ ∃ a, E a ∧ (a.child = v ∨ a.parent = v))

/-- The ids of the edges between vertices. -/
def EdgeWithin (E : Arc → Prop) (V : Value → Prop) (id : Value) : Prop :=
  ∃ a, E a ∧ a.id = id ∧ V a.child ∧ V a.parent

/-- Where an edge lies between vertices, no other edge of its id leads from them to one of the
others. -/
def Settled (E : Arc → Prop) (inside V : Value → Prop) : Prop :=
  ∀ a a', E a → E a' → a.id = a'.id → V a.child → V a.parent →
    ∀ v, a'.child = v ∨ a'.parent = v → inside v → V v

theorem settled_of_unique {E : Arc → Prop} {inside V : Value → Prop}
    (h : ∀ a a', E a → E a' → a.id = a'.id → a = a') : Settled E inside V := by
  intro a a' ha ha' hid hchild hparent v hend _
  obtain rfl := h a a' ha ha' hid
  rcases hend with rfl | rfl
  · exact hchild
  · exact hparent

section Cuts

variable {E E' : Arc → Prop} {vs ks cut es : List Value} {v : Value}

/-- A graph as its own skeleton has all its vertices. -/
theorem inCut_self_iff (hnull : .null ∉ vs) : InCut vs vs E v ↔ v ∈ vs :=
  ⟨fun h => h.2.1, fun hv => ⟨fun h => hnull (h ▸ hv), hv, .inl hv⟩⟩

/-- A cut with the edges of its ids for a skeleton: it is the same again just if it is settled. -/
theorem inCut_again_iff (hcut : ∀ v, v ∈ cut ↔ InCut vs ks E' v) {E'' : Arc → Prop}
    (hE'' : ∀ a, E'' a ↔ E a ∧ EdgeWithin E (InCut vs ks E') a.id) :
    (∀ v, InCut vs cut E'' v ↔ InCut vs ks E' v) ↔
      Settled E (fun v => v ≠ .null ∧ v ∈ vs) (InCut vs ks E') := by
  constructor
  · intro h a a' ha ha' hid hchild hparent v hend hinside
    refine (h v).mp ⟨hinside.1, hinside.2, .inr ⟨a', (hE'' a').mpr ⟨ha', ?_⟩, hend⟩⟩
    exact ⟨a, ha, hid, hchild, hparent⟩
  · intro h v
    constructor
    · rintro ⟨hnull, hin, hv | ⟨a', ha', hend⟩⟩
      · exact (hcut v).mp hv
      · obtain ⟨ha', a, ha, hid, hchild, hparent⟩ := (hE'' a').mp ha'
        exact h a a' ha ha' hid hchild hparent v hend ⟨hnull, hin⟩
    · exact fun hv => ⟨hv.1, hv.2.1, .inl ((hcut v).mpr hv)⟩

/-- Where each id is that of one edge, all edges lie between the vertices just if every id is that of
an edge between them. -/
theorem edgeWithin_iff_of_unique {V : Value → Prop} (hids : ∀ a, E a → a.id ∈ es)
    (honce : ∀ id ∈ es, ∃! a, E a ∧ a.id = id) :
    (∀ id, EdgeWithin E V id ↔ id ∈ es) ↔ ∀ a, E a → V a.child ∧ V a.parent := by
  constructor
  · intro h a ha
    obtain ⟨a', ha', hid, hends⟩ := (h a.id).mpr (hids a ha)
    obtain rfl := (honce a.id (hids a ha)).unique ⟨ha', hid⟩ ⟨ha, rfl⟩
    exact hends
  · intro h id
    constructor
    · rintro ⟨a, ha, rfl, _⟩
      exact hids a ha
    · intro hid
      obtain ⟨a, ⟨ha, rfl⟩, _⟩ := honce id hid
      exact ⟨a, ha, rfl, h a ha⟩

end Cuts

namespace Environment

variable {env : Environment} {s : Store} {target again : String} {tables tables' : TablePair}
  {subject skeleton g : GraphRef} {vs es ks ls : List Value}

/-- The subject's own vertices and its ends among the answers are those that the skeleton touches. -/
theorem mem_answer_iff {db : Database} {t : Table} {v : Value}
    (ht : db.find? env.schema.edgeTable = some t) (htable : env.IsEdgeTable t)
    (hls : env.Holds db skeleton .edge ls) :
    v ∈ ks.filter (·.memberOf vs) ++ ((env.endpointColumns .both).map fun column =>
      ((t.rows.filter fun r => (r.get env.schema.idColumn).memberOf ls).map (·.get column)).filter
        (·.memberOf vs)).flatten ↔ InCut vs ks (env.HasEdge db skeleton) v := by
  have hend : (∃ column ∈ env.endpointColumns .both, ∃ r ∈ t.rows,
      r.get env.schema.idColumn ∈ ls ∧ r.get column = v) ↔
        ∃ a, env.HasEdge db skeleton a ∧ (a.child = v ∨ a.parent = v) := by
    simp only [hasEdge_iff ht hls, endpointColumns, List.mem_cons, List.not_mem_nil, or_false]
    constructor
    · rintro ⟨_, rfl | rfl, r, hr, hid, hv⟩
      · exact ⟨_, ⟨hid, r, hr, rfl⟩, .inl hv⟩
      · exact ⟨_, ⟨hid, r, hr, rfl⟩, .inr hv⟩
    · rintro ⟨_, ⟨hid, r, hr, rfl⟩, hv | hv⟩
      · exact ⟨_, .inl rfl, r, hr, hid, hv⟩
      · exact ⟨_, .inr rfl, r, hr, hid, hv⟩
  rw [InCut, ← hend]
  simp only [List.mem_append, List.mem_flatten, List.mem_map, List.mem_filter, Value.memberOf_iff]
  constructor
  · rintro (⟨hk, hnull, hin⟩ | ⟨_, ⟨column, hcolumn, rfl⟩, hv⟩)
    · exact ⟨hnull, hin, .inl hk⟩
    · obtain ⟨hv, hmember⟩ := List.mem_filter.mp hv
      obtain ⟨hnull, hin⟩ := Value.memberOf_iff.mp hmember
      obtain ⟨r, hr, rfl⟩ := List.mem_map.mp hv
      obtain ⟨hr, hid⟩ := htable.mem_filter.mp hr
      exact ⟨hnull, hin, .inr ⟨column, hcolumn, r, hr, hid, rfl⟩⟩
  · rintro ⟨hnull, hin, hk | ⟨column, hcolumn, r, hr, hid, rfl⟩⟩
    · exact .inl ⟨hk, hnull, hin⟩
    · refine .inr ⟨_, ⟨column, hcolumn, rfl⟩, List.mem_filter.mpr ⟨?_, ?_⟩⟩
      · exact List.mem_map_of_mem (htable.mem_filter.mpr ⟨hr, hid⟩)
      · exact Value.memberOf_iff.mpr ⟨hnull, hin⟩

/-! ## The instruction -/

/-- The edges that a graph holds are added to a table of ids if they lie between given vertices. -/
theorem wp_insertCut {subjects : TablePair} {table : String} {answer : List Value}
    {Q : Unit → Store → Prop} (hsubject : env.resolve subject = .ok subjects)
    (hedges : env.HasEdgeTable s.database) (hes : env.Holds s.database subject .edge es)
    (htable : env.schema.ListsOnce s.database table fun _ => False)
    (hkeeps : env.schema.idAffinity.Keeps answer) (hnull : .null ∉ answer)
    (hQ : ∀ db, env.schema.ListsOnce db table
        (EdgeWithin (env.HasEdge s.database subject) (· ∈ answer)) →
      Database.SameBut [table] s.database db → Q () { s with database := db }) :
    (env.schema.insertNewIds table fun db => do
      return (← env.schema.ids db subjects.edges).within
        (← env.edgesWithin db none (env.schema.scratchIds answer).values)).wp Q s := by
  obtain ⟨all, hbase⟩ := hedges.holds_base
  obtain ⟨between, hread, hbetween⟩ := exists_edgesWithin hedges hbase
    (show env.restriction? .base .edge = .ok none from rfl) hnull
  obtain ⟨subjects', hsubject', hlists⟩ := id hes
  obtain rfl : subjects = subjects' := by simpa [hsubject] using hsubject'
  have hids : env.schema.ids s.database subjects.edges = .ok ⟨env.schema.idAffinity, es⟩ :=
    hlists.ids
  have hnew (id : Value) : id ∈ es.filter (·.memberOf between) ↔
      EdgeWithin (env.HasEdge s.database subject) (· ∈ answer) id := by
    rw [List.mem_filter, Value.memberOf_iff, hbetween]
    constructor
    · rintro ⟨hin, _, a, ha, rfl, hends⟩
      exact ⟨a, (hes.hasEdge_iff hedges).mpr ⟨hin, ha⟩, rfl, hends⟩
    · rintro ⟨a, ha, rfl, hends⟩
      have ha' := (hes.hasEdge_iff hedges).mp ha
      exact ⟨ha'.1, ha.id_ne_null hedges, a, ha'.2, rfl, hends⟩
  have hkept : env.schema.idAffinity.Keeps (es.filter (·.memberOf between)) :=
    fun id hid => hlists.keeps id (List.mem_filter.mp hid).1
  refine .insertNewIds htable (by simp) ?_ hkept ?_
    fun db hl hs => hQ db (hl.congr fun id => by rw [false_or, hnew]) hs
  · rw [Schema.scratchIds, Cells.ofValues_of_keeps hkeeps]
    simp [hids, hread, Cells.within]
  · intro hid
    obtain ⟨a, ha, hid, _⟩ := (hnew _).mp hid
    exact ha.id_ne_null hedges hid

section Cut

variable (hscratch : s.CanScratch) (hfresh : env.Fresh s.database target tables)
  (hedges : env.HasEdgeTable s.database) (hvs : env.Holds s.database subject .vertex vs)
  (hes : env.Holds s.database subject .edge es) (hks : env.Holds s.database skeleton .vertex ks)
  (hls : env.Holds s.database skeleton .edge ls)

include hscratch hfresh hedges hvs hes hks hls

/-- The subject's vertices that the skeleton touches come to a fresh target, and the subject's edges
between them. -/
theorem wp_subgraph :
    (env.subgraph (.named target) subject skeleton).wp
      (fun _ s' => s'.scratchStem = s.scratchStem ∧
        env.schema.ListsOnce s'.database tables.vertices
          (InCut vs ks (env.HasEdge s.database skeleton)) ∧
        env.schema.ListsOnce s'.database tables.edges
          (EdgeWithin (env.HasEdge s.database subject)
            (InCut vs ks (env.HasEdge s.database skeleton))) ∧
        Database.SameBut [tables.vertices, tables.edges] s.database s'.database) s := by
  obtain ⟨t, hfind, htable⟩ := id hedges
  obtain ⟨subjects, hsubject, hvs⟩ := hvs
  obtain ⟨subjects', hsubject', _⟩ := id hes
  obtain rfl : subjects = subjects' := by simpa [hsubject] using hsubject'
  obtain ⟨skeletons, hskeleton, hks⟩ := hks
  obtain ⟨skeletons', hskeleton', hls'⟩ := id hls
  obtain rfl : skeletons = skeletons' := by simpa [hskeleton] using hskeleton'
  -- what the three statements find that fill the answer
  let own := ks.filter (·.memberOf vs)
  let ends (column : String) : List Value :=
    ((t.rows.filter fun r => (r.get env.schema.idColumn).memberOf ls).map (·.get column)).filter
      (·.memberOf vs)
  let answer := own ++ ((env.endpointColumns .both).map ends).flatten
  have hanswer (v : Value) : v ∈ answer ↔ InCut vs ks (env.HasEdge s.database skeleton) v :=
    mem_answer_iff hfind htable hls
  have hkeeps : env.schema.idAffinity.Keeps answer :=
    fun v hv => hvs.keeps v ((hanswer v).mp hv).2.1
  have hnull : .null ∉ answer := fun hv => ((hanswer _).mp hv).1 rfl
  unfold subgraph
  refine .bind (.ofExcept hfresh.resolves (.bind (.ofExcept hsubject (.bind (.ofExcept hskeleton ?_)))))
  refine .withScratch fun request s₁ hs₁ => .bind (.createScratch (hs₁.canScratch hscratch)
    (by decide) fun s₂ hs₂ => ?_)
  have hs₂ := hs₁.trans hs₂
  rw [← hs₂.stem]
  rw [← hs₂.database] at hfresh hedges hvs hes hks hls' hfind hanswer ⊢
  have hinside : env.schema.ids s₂.database subjects.vertices = .ok ⟨env.schema.idAffinity, vs⟩ :=
    hvs.ids
  have hown : env.schema.ids s₂.database skeletons.vertices = .ok ⟨env.schema.idAffinity, ks⟩ :=
    hks.ids
  refine .bind (.query (a := own) ?_ (.bind (.mapM_query (f := ends) (fun column hcolumn => ?_) ?_)))
  · simp [hinside, hown, Cells.values_within, own]
  · have hends := endpointsIn_of_lists hfind htable hls' (env.endpointColumns_subset_reserved hcolumn)
    rw [TablePair.part_edge] at hends
    simp [hinside, hends, Cells.values_within, ends]
  refine .bind (.insertFound (hfresh.listsOnce .vertex) (by simp) hkeeps hnull
    fun db₁ hv₁ hsame₁ => ?_)
  have hall₁ : Database.SameBut [tables.vertices, tables.edges] s₂.database db₁ :=
    hsame₁.mono (by simp)
  have he₁ := (hfresh.listsOnce .edge).of_same hsame₁ (by simpa using hfresh.parts.symm)
  have hedges₁ : env.HasEdgeTable db₁ := by
    simpa [HasEdgeTable, hfresh.edgeTable_of_same hall₁] using hedges
  have hes₁ := hfresh.holds_edges_of_same hsame₁ hes
  refine wp_insertCut hsubject hedges₁ hes₁ he₁ hkeeps hnull fun db₂ he₂ hsame₂ s₃ hs₃ => ?_
  have hE : env.HasEdge db₁ subject = env.HasEdge s₂.database subject :=
    funext fun a => propext (hfresh.hasEdge_of_same hall₁ hes hes₁)
  have hV : (· ∈ answer) = InCut vs ks (env.HasEdge s₂.database skeleton) :=
    funext fun v => propext (hanswer v)
  rw [hs₃.database]
  refine ⟨hs₃.stem, ?_, ?_, hall₁.trans (hsame₂.mono (by simp))⟩
  · refine (hv₁.of_same hsame₂ (by simpa using hfresh.parts)).congr fun v => ?_
    rw [false_or, hanswer]
  · rwa [hE, hV] at he₂

omit hks hls in
/-- Cutting with the cut itself, into another fresh target. -/
theorem wp_subgraph_again {s' : Store} (hstem : s'.scratchStem = s.scratchStem)
    (hv : env.schema.ListsOnce s'.database tables.vertices
      (InCut vs ks (env.HasEdge s.database skeleton)))
    (he : env.schema.ListsOnce s'.database tables.edges
      (EdgeWithin (env.HasEdge s.database subject) (InCut vs ks (env.HasEdge s.database skeleton))))
    (hsame : Database.SameBut [tables.vertices, tables.edges] s.database s'.database)
    (hagain : env.Fresh s'.database again tables') :
    ∃ V, (env.subgraph (.named again) subject (.named target)).wp (fun _ s'' =>
        env.schema.ListsOnce s''.database tables'.vertices V ∧
        env.schema.ListsOnce s''.database tables'.edges
          (EdgeWithin (env.HasEdge s.database subject) V)) s' ∧
      ((∀ v, V v ↔ InCut vs ks (env.HasEdge s.database skeleton) v) ↔
        Settled (env.HasEdge s.database subject) (fun v => v ≠ .null ∧ v ∈ vs)
          (InCut vs ks (env.HasEdge s.database skeleton))) := by
  have hscratch' : s'.CanScratch := by simpa [Store.CanScratch, hstem] using hscratch
  have hedges' : env.HasEdgeTable s'.database := by
    simpa [HasEdgeTable, hfresh.edgeTable_of_same hsame] using hedges
  -- the subject is what it was; if it is the target, that was and is without vertices or edges
  have hvs' : env.Holds s'.database subject .vertex vs :=
    hfresh.holds_of_same hsame hvs fun hnil => hv.lists_nil fun v hv => by simp [InCut, hnil] at hv
  have hes' : env.Holds s'.database subject .edge es := by
    refine hfresh.holds_of_same hsame hes fun hnil => he.lists_nil fun id hid => ?_
    obtain ⟨a, ha, _⟩ := hid
    simpa [hnil] using ((hes.hasEdge_iff hedges).mp ha).1
  obtain ⟨cut, hcut, _, hcutMem⟩ := hv
  obtain ⟨kept, hkept, _, hkeptMem⟩ := he
  have htarget : env.Holds s'.database (.named target) .edge kept := ⟨tables, hfresh.resolves, hkept⟩
  have hE (a : Arc) : env.HasEdge s'.database subject a ↔ env.HasEdge s.database subject a :=
    hfresh.hasEdge_of_same hsame hes hes'
  -- the edges of the target are those of the subject whose ids were kept
  have hE' (a : Arc) : env.HasEdge s'.database (.named target) a ↔ env.HasEdge s.database subject a ∧
      EdgeWithin (env.HasEdge s.database subject) (InCut vs ks (env.HasEdge s.database skeleton))
        a.id := by
    rw [htarget.hasEdge_iff hedges', hkeptMem, ← hE, hes'.hasEdge_iff hedges']
    constructor
    · rintro ⟨hwithin, hbase⟩
      obtain ⟨a', ha', hid, _⟩ := id hwithin
      exact ⟨⟨hid ▸ ((hes.hasEdge_iff hedges).mp ha').1, hbase⟩, hwithin⟩
    · rintro ⟨⟨_, hbase⟩, hwithin⟩
      exact ⟨hwithin, hbase⟩
  refine ⟨_, (wp_subgraph hscratch' hagain hedges' hvs' hes' ⟨tables, hfresh.resolves, hcut⟩
    htarget).mono fun _ s'' h => ?_, inCut_again_iff hcutMem hE'⟩
  obtain ⟨_, hv, he, _⟩ := h
  rw [show env.HasEdge s'.database subject = _ from funext fun a => propext (hE a)] at he
  exact ⟨hv, he⟩

/-- A fresh target gets the subject's vertices that the skeleton touches and all edges of the subject
between them, each once. Cutting the same subject with the result gives the result again just if the cut
is settled, as it is where no two edges have one id. A graph is its own subgraph just if its edges lie
between its vertices, where each id that it holds is that of one edge. -/
theorem subgraph_exact [RegexLibrary] [Summation] :
    let cut : Instruction := .subgraph (.named target) subject skeleton
    let after := env.issue s cut
    let E := env.HasEdge s.database subject
    let V := InCut vs ks (env.HasEdge s.database skeleton)
    env.outcome s cut = .ok .done ∧
    env.schema.ListsOnce after.database tables.vertices V ∧
    env.schema.ListsOnce after.database tables.edges (EdgeWithin E V) ∧
    (∀ again tables', env.Fresh s.database again tables' → tables'.Apart tables →
      let recut : Instruction := .subgraph (.named again) subject (.named target)
      env.outcome after recut = .ok .done ∧
        (env.SameContents after.database tables (env.issue after recut).database tables' ↔
          Settled E (fun v => v ≠ .null ∧ v ∈ vs) V)) ∧
    ((∀ a a', E a → E a' → a.id = a'.id → a = a') → Settled E (fun v => v ≠ .null ∧ v ∈ vs) V) ∧
    (skeleton = subject → .null ∉ vs → (∀ id ∈ es, ∃! a, E a ∧ a.id = id) →
      (env.schema.ListsOnce after.database tables.vertices (· ∈ vs) ∧
          env.schema.ListsOnce after.database tables.edges (· ∈ es) ↔
        ∀ a, E a → a.child ∈ vs ∧ a.parent ∈ vs)) := by
  intro cut after E V
  obtain ⟨hdone, hstem, hv, he, hsame⟩ := outcome_of_wp (i := cut) rfl
    (wp_subgraph hscratch hfresh hedges hvs hes hks hls)
  refine ⟨hdone, hv, he, ?_, settled_of_unique, ?_⟩
  · intro again tables' hagain hapart recut
    obtain ⟨V', hrun, hsettled⟩ := wp_subgraph_again hscratch hfresh hedges hvs hes hstem hv he hsame
      (hagain.of_same hsame hapart)
    obtain ⟨hdone', hv', he'⟩ := outcome_of_wp (i := recut) rfl hrun
    refine ⟨hdone', Iff.trans ⟨fun hcontents v => ?_, fun hV e => ?_⟩ hsettled⟩
    · obtain ⟨p, hp, hp'⟩ := hcontents .vertex
      exact (hv'.unique hp' v).trans (hp.unique hv v)
    · obtain rfl : V' = V := funext fun v => propext (hV v)
      cases e with
      | vertex => exact ⟨_, hv, hv'⟩
      | edge => exact ⟨_, he, he'⟩
  · rintro rfl hnull honce
    obtain rfl := hks.unique hvs
    have hV : V = (· ∈ ks) := funext fun v => propext (inCut_self_iff hnull)
    rw [← edgeWithin_iff_of_unique (V := (· ∈ ks))
      (fun a ha => ((hes.hasEdge_iff hedges).mp ha).1) honce]
    change env.schema.ListsOnce _ _ V at hv
    change env.schema.ListsOnce _ _ (EdgeWithin E V) at he
    rw [hV] at hv he
    constructor
    · exact fun h id => he.unique h.2 id
    · exact fun h => ⟨hv, he.congr h⟩

end Cut
end Environment

/-! ## A skeleton of two vertices -/

namespace SmallWorld

/-- A world of these edges between four vertices, with two of them in `src`. -/
def crossroads (edges : List (String × String × String)) : Store :=
  holding (environment.schema.listing [] ["a", "b", "c", "d"]) (edgeRows edges) (["a", "b"], [])
    ([], [])

section Crossroads

variable (edges : List (String × String × String))

theorem crossroads_canScratch : (crossroads edges).CanScratch := holding_canScratch ..

theorem crossroads_fresh_dst :
    environment.Fresh (crossroads edges).database "dst" (tables "dst") :=
  holding_fresh_dst ..

theorem crossroads_fresh_out :
    environment.Fresh (crossroads edges).database "out" (tables "out") :=
  holding_fresh_out ..

theorem crossroads_hasEdgeTable : environment.HasEdgeTable (crossroads edges).database :=
  ⟨_, holding_edgeTable .., edgeRows_isEdgeTable edges⟩

theorem crossroads_vertices : environment.Holds (crossroads edges).database .base .vertex
    [.text "a", .text "b", .text "c", .text "d"] :=
  ⟨_, rfl, Schema.lists_listing [] ["a", "b", "c", "d"] idAffinity_eq (holding_vertexTable ..)⟩

theorem crossroads_edges : environment.Holds (crossroads edges).database .base .edge
    (edges.map fun edge => .text edge.1) :=
  holding_base_edges ..

theorem crossroads_skeleton : environment.Holds (crossroads edges).database (.named "src") .vertex
    [.text "a", .text "b"] :=
  holding_src_vertices ..

theorem crossroads_skeleton_edges :
    environment.Holds (crossroads edges).database (.named "src") .edge [] :=
  holding_src_edges ..

theorem crossroads_hasEdge :
    environment.HasEdge (crossroads edges).database .base = (· ∈ edges.map arc) :=
  holding_hasEdge ..

variable {edges} in
theorem inCut_crossroads {v : Value} :
    InCut [.text "a", .text "b", .text "c", .text "d"] [.text "a", .text "b"]
      (environment.HasEdge (crossroads edges).database (.named "src")) v ↔
        v = .text "a" ∨ v = .text "b" := by
  have hnone (a : Arc) : ¬ environment.HasEdge (crossroads edges).database (.named "src") a := by
    rw [(crossroads_skeleton_edges edges).hasEdge_iff (crossroads_hasEdgeTable edges)]
    simp
  simp only [InCut, hnone, false_and, exists_false, or_false]
  constructor
  · exact fun h => by simpa using h.2.2
  · rintro (rfl | rfl) <;> simp

end Crossroads

def cutByTwo : Instruction := .subgraph (.named "dst") .base (.named "src")

def cutAgain : Instruction := .subgraph (.named "out") .base (.named "dst")

/-- Of a walk of two edges its first one lies between the two vertices, and no more is found over it. -/
theorem subgraph_exact_chain :
    environment.schema.ListsOnce (environment.issue (crossroads chain) cutByTwo).database
        (tables "dst").edges (· = .text "e1") ∧
      environment.SameContents (environment.issue (crossroads chain) cutByTwo).database
        (tables "dst")
        (environment.issue (environment.issue (crossroads chain) cutByTwo) cutAgain).database
        (tables "out") := by
  obtain ⟨_, _, he, hagain, hunique, _⟩ := Environment.subgraph_exact (crossroads_canScratch chain)
    (crossroads_fresh_dst chain) (crossroads_hasEdgeTable chain) (crossroads_vertices chain)
    (crossroads_edges chain) (crossroads_skeleton chain) (crossroads_skeleton_edges chain)
  refine ⟨he.congr fun id => ?_, (hagain "out" (tables "out") (crossroads_fresh_out chain)
    (by decide)).2.mpr (hunique ?_)⟩
  · simp only [EdgeWithin, crossroads_hasEdge, inCut_crossroads, mem_chain]
    constructor
    · rintro ⟨_, rfl | rfl, rfl, _, hparent⟩
      · rfl
      · simp [arc] at hparent
    · rintro rfl
      exact ⟨_, .inl rfl, rfl, .inl rfl, .inr rfl⟩
  · simp only [crossroads_hasEdge, mem_chain]
    rintro a a' (rfl | rfl) (rfl | rfl) hid
    · rfl
    · simp [arc] at hid
    · simp [arc] at hid
    · rfl

/-- Two edges under one id. -/
def twins : List (String × String × String) := [("e", "a", "b"), ("e", "c", "d")]

/-- The second edge leads to the other vertices. -/
theorem not_subgraph_again_twins :
    ¬ environment.SameContents (environment.issue (crossroads twins) cutByTwo).database
      (tables "dst")
      (environment.issue (environment.issue (crossroads twins) cutByTwo) cutAgain).database
      (tables "out") := by
  obtain ⟨_, hstem, hv, he, hsame⟩ := Environment.outcome_of_wp (i := cutByTwo) rfl
    (Environment.wp_subgraph (crossroads_canScratch twins) (crossroads_fresh_dst twins)
      (crossroads_hasEdgeTable twins) (crossroads_vertices twins) (crossroads_edges twins)
      (crossroads_skeleton twins) (crossroads_skeleton_edges twins))
  have hout : environment.Fresh (environment.issue (crossroads twins) cutByTwo).database "out"
      (tables "out") := (crossroads_fresh_out twins).of_same hsame (by decide)
  obtain ⟨V, hrun, hsettled⟩ := Environment.wp_subgraph_again (crossroads_canScratch twins)
    (crossroads_fresh_dst twins) (crossroads_hasEdgeTable twins) (crossroads_vertices twins)
    (crossroads_edges twins) hstem hv he hsame hout
  obtain ⟨_, hv', _⟩ := Environment.outcome_of_wp (i := cutAgain) rfl hrun
  intro hcontents
  obtain ⟨p, hp, hp'⟩ := hcontents .vertex
  have hsettled := hsettled.mp fun v => (hv'.unique hp' v).trans (hp.unique hv v)
  simp only [Settled, crossroads_hasEdge, inCut_crossroads] at hsettled
  have hc := hsettled (arc ("e", "a", "b")) (arc ("e", "c", "d")) (by simp [twins]) (by simp [twins])
    rfl (.inl rfl) (.inr rfl) (.text "c") (.inl rfl) (by simp)
  simp at hc

end SmallWorld
end Provenance
