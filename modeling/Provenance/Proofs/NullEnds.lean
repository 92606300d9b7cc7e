-- SUMMARY: Null ends of edges are the only way in which a null gets into a graph.
import Provenance.Proofs.Nulls

/-!
# Ends of edges that are null

The ends of edges are added to a graph without being looked up among the vertices, and those that
are null with them if there is no vertex in the graph to compare them with. There is no other way in
which a null gets into a graph: over whole runs, graphs are free of nulls exactly as long as no ends
of edges are added in this way.
-/
namespace Provenance

open Program Store

/-! ## Loops that read -/

/-- Each answer belongs to an item, and each item has its answer. -/
theorem Program.reads.mapM_each {α β : Type} {s : Store} {items : List β} {body : β → Program α}
    {q : β → α → Prop} (h : ∀ x ∈ items, reads (body x) (q x) s) :
    reads (items.mapM body)
      (fun as => (∀ a ∈ as, ∃ x ∈ items, q x a) ∧ ∀ x ∈ items, ∃ a ∈ as, q x a) s := by
  induction items with
  | nil => exact .pure (by simp)
  | cons x rest ih =>
    rw [List.mapM_cons]
    refine .bind (h x (by simp)) fun a ha => ?_
    refine .bind (ih fun y hy => h y (by simp [hy])) fun as has => .pure ⟨?_, ?_⟩
    · intro b hb
      rcases List.mem_cons.mp hb with rfl | hb
      · exact ⟨x, by simp, ha⟩
      · obtain ⟨y, hy, hq⟩ := has.1 b hb
        exact ⟨y, by simp [hy], hq⟩
    · intro y hy
      rcases List.mem_cons.mp hy with rfl | hy
      · exact ⟨a, by simp, ha⟩
      · obtain ⟨b, hb, hq⟩ := has.2 y hy
        exact ⟨b, by simp [hb], hq⟩

/-- A loop over statements that read. -/
theorem Program.wp.mapM_same {α β : Type} {s : Store} {items : List β} {body : β → Program α}
    {Q : List α → Store → Prop} (h : ∀ x ∈ items, wp (body x) (fun _ s' => s' = s) s)
    (hQ : ∀ as, Q as s) : wp (items.mapM body) Q s := by
  induction items generalizing Q with
  | nil => exact .pure (hQ [])
  | cons x rest ih =>
    rw [List.mapM_cons]
    refine .bind ((h x (by simp)).mono fun a s' hs => ?_)
    subst hs
    exact .bind (ih (fun y hy => h y (by simp [hy])) fun as => .pure (hQ (a :: as)))

namespace Environment

variable {env : Environment} {s s' : Store} {g target : GraphRef} {tables : TablePair}
  {e : Element} {t : Table} {name : String} {cells : Cells} {vs : List Value}

/-! ## Ends of edges -/

/-- Some edge of the graph has a null for one of the ends that are meant. -/
def HasNullEnd (env : Environment) (db : Database) (g : GraphRef) (endpoint : Endpoint) : Prop :=
  ∃ tables column cells, env.resolve g = .ok tables ∧ column ∈ env.endpointColumns endpoint ∧
    env.endpointsIn db tables.edges column = .ok cells ∧ .null ∈ cells.values

/-- The graph has a table of vertices, in which there are none. -/
def HasNoVertex (env : Environment) (db : Database) (g : GraphRef) : Prop :=
  ∃ tables t, env.resolve g = .ok tables ∧ db.find? tables.vertices = some t ∧ t.rows = []

theorem hasNoVertex_iff (hg : env.resolve g = .ok tables) {db : Database}
    (hcells : env.schema.ids db tables.vertices = .ok cells) :
    env.HasNoVertex db g ↔ cells.values = [] := by
  obtain ⟨t, ht, _, rfl⟩ := Schema.ids_eq_ok hcells
  have hvalues : (t.cells env.schema.idColumn).values = [] ↔ t.rows = [] := List.map_eq_nil_iff
  rw [hvalues]
  constructor
  · rintro ⟨tables', t', hg', ht', hrows⟩
    obtain rfl : tables = tables' := by simpa [hg] using hg'
    obtain rfl : t = t' := by simpa [ht] using ht'
    exact hrows
  · exact fun hrows => ⟨tables, t, hg, ht, hrows⟩

/-- The instruction has no vertex in its target to compare with the null among the ends that it
adds. -/
structure Exposed (env : Environment) (db : Database) (target subject : GraphRef)
    (endpoint : Endpoint) : Prop where
  target : env.HasNoVertex db target
  subject : env.HasNullEnd db subject endpoint

/-- The graph has a null among its vertices. -/
def HoldsNull (env : Environment) (db : Database) (g : GraphRef) : Prop :=
  ∃ tables t, env.resolve g = .ok tables ∧ db.find? tables.vertices = some t ∧
    .null ∈ t.values env.schema.idColumn

theorem HoldsNull.not_nullFree (h : env.HoldsNull s.database g) : ¬ env.NullFree s := by
  obtain ⟨tables, t, hg, ht, hnull⟩ := h
  exact fun hfree => hfree g tables .vertex t hg ht hnull

/-- The ends that are found have a null among them just if some edge has one. -/
theorem reads_ends {subject : GraphRef} {endpoint : Endpoint}
    (hsubject : env.resolve subject = .ok tables) :
    reads ((env.endpointColumns endpoint).mapM fun column => Program.query fun db =>
        return (← env.endpointsIn db tables.edges column).values)
      (fun found => .null ∈ found.flatten ↔ env.HasNullEnd s.database subject endpoint) s := by
  have hfound : reads ((env.endpointColumns endpoint).mapM fun column => Program.query fun db =>
      return (← env.endpointsIn db tables.edges column).values) _ s :=
    .mapM_each (q := fun column vs => ∃ cells,
        env.endpointsIn s.database tables.edges column = .ok cells ∧ vs = cells.values)
      fun column _ => .query fun vs hvs => by
        obtain ⟨cells, hcells, hvs⟩ := Except.bind_eq_ok.mp hvs
        exact ⟨cells, hcells, (Except.ok.inj hvs).symm⟩
  refine hfound.mono fun found h => ?_
  constructor
  · intro hnull
    obtain ⟨vs, hvs, hnull⟩ := List.mem_flatten.mp hnull
    obtain ⟨column, hcolumn, cells, hcells, rfl⟩ := h.1 vs hvs
    exact ⟨tables, column, cells, hsubject, hcolumn, hcells, hnull⟩
  · rintro ⟨tables', column, cells, hg, hcolumn, hcells, hnull⟩
    obtain rfl : tables = tables' := by simpa [hsubject] using hg
    obtain ⟨vs, hvs, cells', hcells', rfl⟩ := h.2 column hcolumn
    obtain rfl : cells = cells' := by simpa [hcells] using hcells'
    exact List.mem_flatten.mpr ⟨_, hvs, hnull⟩

/-- Ends of edges bring a null into a graph that is exposed to it, and into no other. -/
theorem NullFree.endpoints (h : env.NullFree s) {subject : GraphRef} {endpoint : Endpoint} :
    ends (env.endpoints target subject endpoint)
      (fun _ s' =>
        (env.Exposed s.database target subject endpoint → env.HoldsNull s'.database target) ∧
          (¬ env.Exposed s.database target subject endpoint → env.NullFree s')) env.NullFree s := by
  unfold Environment.endpoints
  refine .bind (.ofExcept h fun tables htables => .bind (.ofExcept h fun subjects hsubject => ?_))
  refine .aroundScratch (fun _ s' s'' hs h' => ?_) fun request s₁ hs₁ => ?_
  · rw [hs]
    exact ⟨h'.1, fun hexposed => (h'.2 hexposed).of_database hs⟩
  have h₁ := h.of_database hs₁
  refine .bind (.scratch h₁ fun s₂ hs₂ => ?_)
  have h₂ := h₁.of_database hs₂
  rw [← hs₂.trans hs₁]
  refine (reads_ends hsubject).bind_ends h₂ fun found hnull => ?_
  unfold Schema.insertNewIds Schema.insertIds
  refine .update h₂ fun db hdb => ?_
  obtain ⟨vs, hvs, hdb⟩ := Except.bind_eq_ok.mp hdb
  obtain ⟨present, hpresent, hvs⟩ := Except.bind_eq_ok.mp hvs
  obtain rfl := Except.ok.inj hvs
  obtain ⟨name, rfl, hresolve⟩ := exists_name_of_writable htables
  -- a null is added exactly where there is nothing to compare it with
  have hadded : .null ∈ Value.groups
      ((env.schema.scratchIds found.flatten).without present).values ↔
        env.Exposed s₂.database (.named name) subject endpoint := by
    rw [Value.mem_groups, Cells.null_mem_without, Schema.null_mem_scratchIds, hnull,
      ← hasNoVertex_iff hresolve hpresent]
    exact ⟨fun h => ⟨h.2, h.1⟩, fun h => ⟨h.subject, h.target⟩⟩
  refine ⟨fun hexposed => ?_, fun hexposed => ?_⟩
  · obtain ⟨t, ht, hhas, rfl⟩ := Database.insertColumn_eq_ok hdb
    refine ⟨tables, _, hresolve, by rw [Database.find?_put, if_pos rfl], ?_⟩
    rw [Table.null_mem_values_append hhas]
    exact .inr (hadded.mpr hexposed)
  · exact h₂.insertColumn hdb (fun hnull => hexposed (hadded.mp hnull))

/-! ## Runs -/

/-- The instruction succeeds in adding ends of edges to a graph that is exposed to a null among
them. -/
def Leaks [RegexLibrary] [Summation] (env : Environment) (s : Store) (i : Instruction) : Prop :=
  ∃ target subject endpoint answer s', i = .endpoints target subject endpoint ∧
    (i.run env).perform s = (.ok answer, s') ∧ env.Exposed s.database target subject endpoint

namespace NullFree

/-- Tables may be emptied, and those of metadata filled. -/
theorem write (h : env.NullFree s) (hmetadata : env.MetadataApart) {before db : Database}
    {a : Access} (ha : ∀ target unguarded, a ≠ .insert target unguarded)
    (hw : env.Write before a s.database db) : env.NullFree { s with database := db } := by
  have hput (name : String) (t : Table) (ht : ∀ g tables e, env.resolve g = .ok tables →
      Name.folded (tables.part e) = Name.folded name → t.rows = []) :
      env.NullFree { s with database := s.database.put name t } := by
    intro g tables e t' hg ht'
    rw [Database.find?_put] at ht'
    split at ht'
    · next hname =>
      obtain rfl := Option.some.inj ht'
      simp [Table.values, ht g tables e hg hname]
    · exact h g tables e t' hg ht'
  cases hw with
  | drop =>
    intro g tables e t hg ht
    rw [Database.find?_drop] at ht
    split at ht
    · cases ht
    · exact h g tables e t hg ht
  | create _ hdb =>
    obtain ⟨_, rfl⟩ := Database.create_eq_ok hdb
    exact hput _ _ fun _ _ _ _ _ => rfl
  | insertNew => exact absurd rfl (ha _ _)
  | insertAll => exact absurd rfl (ha _ _)
  | tag htables hdb =>
    obtain ⟨_, _, _, rfl⟩ := Database.insertMetadata_eq_ok hdb
    exact hput _ _ fun g others e hg heq => absurd heq.symm (hmetadata _ _ g _ htables hg _ e)

theorem issue_of_ends [RegexLibrary] [Summation]
    {m : Program Unit} {i : Instruction} (hi : i.run env = Instruction.writing m)
    (hm : ends m (fun _ => env.NullFree) env.NullFree s) : env.NullFree (env.issue s i) := by
  have hrun : ends (i.run env) (fun _ => env.NullFree) env.NullFree s := by
    rw [hi]
    exact .bind (hm.mono (fun _ _ h' => .pure h') fun _ => id)
  exact hrun.always

theorem issue_of_access [RegexLibrary] [Summation]
    (h : env.NullFree s) (hmetadata : env.MetadataApart) {i : Instruction}
    (hi : ∀ target unguarded, i.access? ≠ some (.insert target unguarded)) :
    env.NullFree (env.issue s i) := by
  have hkeeps := issue_keeps (P := fun db => env.NullFree { s with database := db }) h i
    fun a ha db db' hdb hw => hdb.write hmetadata (fun target unguarded hinsert =>
      hi target unguarded (hinsert ▸ Option.mem_def.mp ha)) hw
  exact hkeeps.of_database rfl

/-- No other instruction brings a null into a graph. -/
theorem issue [RegexLibrary] [Summation]
    (h : env.NullFree s) (hmetadata : env.MetadataApart) {i : Instruction}
    (hi : ∀ target subject endpoint, i ≠ .endpoints target subject endpoint) :
    env.NullFree (env.issue s i) := by
  cases i with
  | endpoints => exact absurd rfl (hi _ _ _)
  | distinctify => exact issue_of_ends rfl h.distinctify
  | union => exact issue_of_ends rfl h.union
  | intersect => exact issue_of_ends rfl h.intersect
  | subtract => exact issue_of_ends rfl h.subtract
  | limit => exact issue_of_ends rfl h.limit
  | insertGiven => exact issue_of_ends rfl h.insertGiven
  | select => exact issue_of_ends rfl h.select
  | selectCarriers => exact issue_of_ends rfl h.selectCarriers
  | matchVertices => exact issue_of_ends rfl h.matchVertices
  | subgraph => exact issue_of_ends rfl h.subgraph
  | collapse => exact issue_of_ends rfl h.collapse
  | adjacent => exact issue_of_ends rfl h.lineage
  | lineage => exact issue_of_ends rfl h.lineage
  | shortestPath => exact issue_of_ends rfl h.shortestPath
  | simplePath => exact issue_of_ends rfl h.simplePath
  | link => exact issue_of_ends rfl h.link
  | createEmpty | createEmptyMetadata | overwriteMetadata =>
    exact h.issue_of_access hmetadata (by simp [Instruction.access?])
  | count | statisticSize | mean | standardDeviation | histogram | distribution | description
  | exportVertices | exportEdges | setMetadata =>
    exact h.issue_of_access hmetadata (by simp [Instruction.access?])

end NullFree

/-- A leak shows in the target. -/
theorem Leaks.holdsNull [RegexLibrary] [Summation] {subject : GraphRef} {endpoint : Endpoint}
    (hleaks : env.Leaks s (.endpoints target subject endpoint)) (h : env.NullFree s) :
    env.HoldsNull (env.issue s (.endpoints target subject endpoint)).database target := by
  obtain ⟨_, _, _, answer, s', heq, hrun, hexposed⟩ := hleaks
  obtain ⟨rfl, rfl, rfl⟩ := Instruction.endpoints.inj heq
  have hends : ends (Instruction.run env (.endpoints target subject endpoint))
      (fun _ s' => env.HoldsNull s'.database target) env.NullFree s :=
    .bind (h.endpoints.mono (fun _ _ h' => .pure (h'.1 hexposed)) fun _ => id)
  have hissue : env.issue s (.endpoints target subject endpoint) = s' := by
    rw [Environment.issue, hrun]
  exact hissue ▸ hends.ok hrun

/-- One instruction keeps graphs free of nulls if and only if it does not leak. -/
theorem NullFree.issue_iff [RegexLibrary] [Summation]
    (h : env.NullFree s) (hmetadata : env.MetadataApart) (i : Instruction) :
    env.NullFree (env.issue s i) ↔ ¬ env.Leaks s i := by
  by_cases hi : ∃ target subject endpoint, i = .endpoints target subject endpoint
  · obtain ⟨target, subject, endpoint, rfl⟩ := hi
    constructor
    · exact fun hfree hleaks => (hleaks.holdsNull h).not_nullFree hfree
    · intro hleaks
      have hends : ends (Instruction.run env (.endpoints target subject endpoint)) (fun _ s' =>
          ¬ env.Exposed s.database target subject endpoint → env.NullFree s') env.NullFree s :=
        .bind (h.endpoints.mono (fun _ _ h' => .pure h'.2) fun _ => id)
      unfold Environment.issue
      cases hrun : (Instruction.run env (.endpoints target subject endpoint)).perform s with
      | mk outcome s' =>
        cases outcome with
        | ok answer =>
          exact hends.ok hrun fun hexposed =>
            hleaks ⟨target, subject, endpoint, answer, s', rfl, hrun, hexposed⟩
        | error err => exact hends.error hrun
  · refine iff_of_true (h.issue hmetadata fun target subject endpoint heq => ?_) ?_
    · exact hi ⟨target, subject, endpoint, heq⟩
    · rintro ⟨target, subject, endpoint, _, _, heq, _⟩
      exact hi ⟨target, subject, endpoint, heq⟩

/-- Over a whole run no graph comes to hold a null, exactly if at no point of it ends of edges that
are null are added to a graph without vertices. -/
theorem nullFree_throughout_iff [RegexLibrary] [Summation]
    (hmetadata : env.MetadataApart) (h : env.NullFree s)
    (is : List Instruction) :
    (∀ done, done <+: is → env.NullFree (env.issueAll s done)) ↔
      ∀ done i, done ++ [i] <+: is → ¬ env.Leaks (env.issueAll s done) i := by
  constructor
  · intro hfree done i hdone hleaks
    have hbefore := hfree done ((List.prefix_append done [i]).trans hdone)
    have hafter := hfree (done ++ [i]) hdone
    rw [issueAll_append] at hafter
    exact (hbefore.issue_iff hmetadata i).mp hafter hleaks
  · intro hleaks done
    induction done using List.reverseRecOn with
    | nil => exact fun _ => h
    | append_singleton done i ih =>
      intro hdone
      rw [issueAll_append]
      have hbefore := ih ((List.prefix_append done [i]).trans hdone)
      exact (hbefore.issue_iff hmetadata i).mpr (hleaks done i hdone)

/-! ## An edge without a child -/

/-- A loaded world without nulls among its ids, with graphs that are newly made. -/
theorem nullFree_of_isBase {w : World} (hbase : w.IsBase env s.database)
    (hvertices : ∀ v ∈ w.vertices, v.id ≠ .null)
    (hmade : ∀ name tables e t, env.resolve (.named name) = .ok tables →
      s.database.find? (tables.part e) = some t → t = ⟨env.schema.idColumns, []⟩) :
    env.NullFree s := by
  intro g tables e t hg ht
  cases g with
  | base =>
    obtain rfl := Except.ok.inj hg
    cases e with
    | vertex =>
      obtain ⟨tables, hresolve, t', ht', _, hids⟩ := hbase.vertices
      obtain rfl := Except.ok.inj hresolve
      obtain rfl : t = t' := Option.some.inj (ht.symm.trans ht')
      rw [hids]
      intro hnull
      obtain ⟨v, hv, hid⟩ := List.mem_map.mp hnull
      exact hvertices v hv (Affinity.store_eq_null.mp hid)
    | edge =>
      obtain ⟨t', ht', hedges⟩ := hbase.hasEdgeTable
      obtain rfl : t = t' := Option.some.inj (ht.symm.trans ht')
      exact hedges.ids
  | named name =>
    rw [hmade name tables e t hg ht]
    simp [Table.values]

/-- The ends of the edges that a graph holds can be read. -/
theorem exists_endpointsIn {es : List Value} {column : String} (ht : env.HasEdgeTable s.database)
    (hes : env.schema.Lists s.database tables.edges es)
    (hcolumn : column ∈ env.schema.reserved) :
    ∃ cells, env.endpointsIn s.database tables.edges column = .ok cells ∧
      ∀ t r, s.database.find? env.schema.edgeTable = some t → r ∈ t.rows →
        r.get env.schema.idColumn ∈ es → r.get column ∈ cells.values := by
  obtain ⟨t, hfind, hedges⟩ := ht
  refine ⟨_, endpointsIn_of_lists hfind hedges hes hcolumn, fun t' r ht' hr hin => ?_⟩
  obtain rfl : t = t' := by simpa [hfind] using ht'
  exact List.mem_map_of_mem (hedges.mem_filter.mpr ⟨hr, hin⟩)

theorem hasNullEnd_of_hasEdge {a : Arc} (ht : env.HasEdgeTable s.database)
    (ha : env.HasEdge s.database g a) (hnull : a.child = .null) :
    env.HasNullEnd s.database g .both := by
  obtain ⟨t, es, hfind, ⟨tables, hg, hes⟩, hin, r, hr, rfl⟩ := ha
  obtain ⟨cells, hcells, hmem⟩ := exists_endpointsIn ht hes env.schema.childColumn_mem_reserved
  exact ⟨tables, _, cells, hg, by simp [endpointColumns], hcells, hnull ▸ hmem t r hfind hr hin⟩

/-- Ends of edges can be added wherever there are tables to add to. -/
theorem exists_perform_endpoints [RegexLibrary] [Summation]
    {subject : GraphRef} {endpoint : Endpoint} {es : List Value}
    (hscratch : s.CanScratch) (ht : env.HasEdgeTable s.database)
    (htables : env.writable target = .ok tables)
    (htarget : env.schema.Lists s.database tables.vertices vs)
    (hsubject : env.Holds s.database subject .edge es) :
    ∃ answer s', (Instruction.run env (.endpoints target subject endpoint)).perform s =
      (.ok answer, s') := by
  obtain ⟨subjects, hg, hes⟩ := hsubject
  have hrun : (env.endpoints target subject endpoint).wp (fun _ _ => True) s := by
    unfold Environment.endpoints
    refine .bind (.ofExcept htables (.bind (.ofExcept hg ?_)))
    refine .withScratch fun request s₁ hs₁ => .bind (.createScratch (hs₁.canScratch hscratch)
      (by decide) fun s₂ hs₂ => ?_)
    have hdb := (hs₁.trans hs₂).database
    rw [← hdb] at ht hes htarget
    refine .bind (.mapM_same (fun column hcolumn => ?_) fun found => ?_)
    · have hreserved : column ∈ env.schema.reserved := by
        have hboth := endpointColumns_subset endpoint hcolumn
        simp only [endpointColumns, List.mem_cons, List.not_mem_nil, or_false] at hboth
        rcases hboth with rfl | rfl <;> simp
      obtain ⟨cells, hcells, _⟩ := exists_endpointsIn ht hes hreserved
      exact .query (by simp only [hcells, ok_bind, pure_eq_ok]; rfl) rfl
    · obtain ⟨t, hfind, hkeeps, _⟩ := id htarget
      have htable : s₂.database.tableWith tables.vertices [env.schema.idColumn] = .ok t :=
        Database.tableWith_of_find? hfind (by simpa using hkeeps.has)
      let new := Value.groups
        ((env.schema.scratchIds found.flatten).without ⟨env.schema.idAffinity, vs⟩).values
      have hdb : s₂.database.insertColumn tables.vertices env.schema.idColumn new =
          .ok (s₂.database.put tables.vertices (t.append (t.column env.schema.idColumn new))) := by
        simp [Database.insertColumn, htable]
      unfold Schema.insertNewIds Schema.insertIds
      exact .update (by simpa [htarget.ids] using hdb) fun _ _ => trivial
  obtain ⟨_, s', hrun, _⟩ := hrun
  exact ⟨.done, s', (perform_bind_of_ok hrun).trans rfl⟩

/-- A vertex and an edge to it that comes from nowhere. -/
def dangling : World := ⟨[⟨.text "a", []⟩], [⟨.text "e1", .null, .text "a", []⟩], [], []⟩

theorem wp_dangling :
    Program.wp (do
      dangling.load oneGraph.schema
      oneGraph.createEmpty (.named "g"))
      (fun _ s => dangling.IsBase oneGraph s.database ∧
        oneGraph.Fresh s.database "g" (oneGraph.graphTables "g") ∧ s.CanScratch)
      SmallWorld.start := by
  -- the columns are those of a world without nulls
  have hload := SmallWorld.canLoad ["a"] [("e1", "a", "a")]
  refine wp_oneGraph_of ⟨hload.vertexTable, hload.edgeTable, hload.apart, hload.vertexColumns,
    hload.edgeColumns⟩ fun e he => ?_
  obtain rfl := List.mem_singleton.mp he
  simp

/-- The vertex that the graph holds keeps the null out. -/
theorem nullFree_throughout_iff_dangling :
    Program.wp (do
      dangling.load oneGraph.schema
      oneGraph.createEmpty (.named "g"))
      (fun _ s => oneGraph.MetadataApart ∧ oneGraph.NullFree s ∧
        ∀ done, done <+: [addVertex, .endpoints (.named "g") .base .both] →
          oneGraph.NullFree (oneGraph.issueAll s done))
      SmallWorld.start := by
  refine wp_dangling.mono fun _ s h => ?_
  obtain ⟨hw, hfresh, hscratch⟩ := h
  have hfree : oneGraph.NullFree s := by
    refine nullFree_of_isBase hw (by decide) fun name tables e t hr ht => ?_
    obtain rfl := resolve_oneGraph hr
    exact Option.some.inj (ht.symm.trans (hfresh.made e))
  have hmetadata := oneGraph_sorted.metadataApart
  refine ⟨hmetadata, hfree, ?_⟩
  refine (nullFree_throughout_iff hmetadata hfree _).mpr fun done i hdone hleaks => ?_
  obtain ⟨target, subject, endpoint, _, _, rfl, _, hexposed⟩ := hleaks
  obtain ⟨rfl, rfl, rfl, rfl⟩ : done = [addVertex] ∧ target = .named "g" ∧ subject = .base ∧
      endpoint = .both := by
    simp_all [List.prefix_cons_iff, List.append_eq_cons_iff, addVertex]
  obtain ⟨t, ht, ha⟩ := mem_of_addVertex hw (by decide) hfresh hscratch
  obtain ⟨tables, t', hr, ht', hrows⟩ := hexposed.target
  obtain rfl := resolve_oneGraph hr
  obtain rfl : t = t' := Option.some.inj (ht.symm.trans ht')
  simp [Table.values, hrows] at ha

/-- In a graph without vertices it arrives. -/
theorem endpoints_dangling_holdsNull :
    Program.wp (do
      dangling.load oneGraph.schema
      oneGraph.createEmpty (.named "g"))
      (fun _ s => oneGraph.NullFree s ∧
        oneGraph.HoldsNull (oneGraph.issue s (.endpoints (.named "g") .base .both)).database
          (.named "g"))
      SmallWorld.start := by
  refine wp_dangling.mono fun _ s h => ?_
  obtain ⟨hw, hfresh, hscratch⟩ := h
  have hfree : oneGraph.NullFree s := by
    refine nullFree_of_isBase hw (by decide) fun name tables e t hr ht => ?_
    obtain rfl := resolve_oneGraph hr
    exact Option.some.inj (ht.symm.trans (hfresh.made e))
  have hedge : oneGraph.HasEdge s.database .base ⟨.text "e1", .null, .text "a"⟩ :=
    (hw.hasEdge _).mpr ⟨_, List.mem_singleton_self _, by decide⟩
  have htables : oneGraph.writable (.named "g") = .ok (oneGraph.graphTables "g") := rfl
  obtain ⟨answer, s', hrun⟩ : ∃ answer s', (Instruction.run oneGraph
      (.endpoints (.named "g") .base .both)).perform s = (.ok answer, s') :=
    exists_perform_endpoints hscratch hw.hasEdgeTable htables (hfresh.lists .vertex) hw.edges
  have hexposed : oneGraph.Exposed s.database (.named "g") .base .both :=
    ⟨⟨_, _, hfresh.resolves, hfresh.made .vertex, rfl⟩,
      hasNullEnd_of_hasEdge hw.hasEdgeTable hedge rfl⟩
  have hleaks : oneGraph.Leaks s (.endpoints (.named "g") .base .both) :=
    ⟨_, _, _, answer, s', rfl, hrun, hexposed⟩
  exact ⟨hfree, hleaks.holdsNull hfree⟩

end Environment
end Provenance
