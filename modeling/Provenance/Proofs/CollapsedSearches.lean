-- SUMMARY: Searches over the collapsed edges of a graph reach the vertices that searches over the graph reach.
import Provenance.Proofs.Collapse
import Provenance.Proofs.Independence
import Provenance.Proofs.BaseCopy
import Provenance.Proofs.Lineage

/-!
# Searches over collapsed edges

A search over the collapsed edges of a graph is compared with the same search over the graph itself. The
two runs see parallel edges, so they reach the same vertices, and differ in nothing but the rows that
they add to the edge table of the target. No search reads those.
-/
namespace Provenance

open Program

/-! ## Databases that differ in the rows of one table -/

/-- Databases that have come from the same one by what was added to a target, and that differ at most in
the edges added. -/
structure EdgesAside (before : Database) (targets : TablePair) (db db' : Database) : Prop where
  same : Database.SameBut [targets.vertices, targets.edges] before db
  others : ∀ name, Name.folded name ≠ Name.folded targets.edges → db.find? name = db'.find? name
  edges : ∃ t t', db.find? targets.edges = some t ∧ db'.find? targets.edges = some t' ∧
    t.columns = t'.columns

namespace EdgesAside

variable {before db db' : Database} {targets : TablePair}

theorem same_right (h : EdgesAside before targets db db') :
    Database.SameBut [targets.vertices, targets.edges] before db' :=
  fun name hname => (h.others name (hname _ (by simp))).symm.trans (h.same name hname)

theorem tableWith (h : EdgesAside before targets db db') (columns : List String) :
    Except.Alike (fun t t' => t.columns = t'.columns) (db.tableWith targets.edges columns)
      (db'.tableWith targets.edges columns) := by
  obtain ⟨t, t', hfind, hfind', hcolumns⟩ := h.edges
  have hhas : t.has = t'.has := by
    funext column
    simp only [Table.has, Table.names, hcolumns]
  simp only [Database.tableWith, Database.table, hfind, hfind', ok_bind, hhas]
  split
  · exact .ok hcolumns
  · exact .error _

/-- Edges are added on both sides, whichever they are. -/
theorem insertEdges (h : EdgesAside before targets db db') (column : String) (vs vs' : List Value) :
    Except.Alike (EdgesAside before targets) (db.insertColumn targets.edges column vs)
      (db'.insertColumn targets.edges column vs') := by
  refine .bind (h.tableWith [column]) fun t t' _ _ hcolumns => .ok ⟨?_, fun name hname => ?_, ?_⟩
  · exact h.same.trans ((Database.SameBut.put db _ _).mono (by simp))
  · rw [Database.find?_put, if_neg hname, Database.find?_put, if_neg hname, h.others name hname]
  · refine ⟨t.append (t.column column vs), t'.append (t'.column column vs'), ?_, ?_, hcolumns⟩
    · rw [Database.find?_put, if_pos rfl]
    · rw [Database.find?_put, if_pos rfl]

variable (hparts : Name.folded targets.vertices ≠ Name.folded targets.edges)

include hparts

/-- Of vertices the same are added. -/
theorem insertVertices (h : EdgesAside before targets db db') (column : String) (vs : List Value) :
    Except.Alike (EdgesAside before targets) (db.insertColumn targets.vertices column vs)
      (db'.insertColumn targets.vertices column vs) := by
  have htable : db.tableWith targets.vertices [column] = db'.tableWith targets.vertices [column] := by
    simp only [Database.tableWith, Database.table, h.others _ hparts]
  refine .bind (.of_eq htable) fun t _ _ _ ht => .ok ?_
  subst ht
  refine ⟨h.same.trans ((Database.SameBut.put db _ _).mono (by simp)), fun name hname => ?_, ?_⟩
  · rw [Database.find?_put, Database.find?_put, h.others name hname]
  · obtain ⟨t, t', hfind, hfind', hcolumns⟩ := h.edges
    refine ⟨t, t', ?_, ?_, hcolumns⟩
    · rw [Database.find?_put, if_neg hparts.symm, hfind]
    · rw [Database.find?_put, if_neg hparts.symm, hfind']

theorem takes (env : Environment) : env.Takes (EdgesAside before targets) targets.vertices :=
  ⟨fun h => Schema.ids_congr (h.others _ hparts), fun vs h => h.insertVertices hparts _ vs⟩

end EdgesAside

namespace Environment

variable {env : Environment} {before : Database} {targets : TablePair} {target : String}
  {o : Origin} {phase : Phase} {edges? edges?' : Option String} {g k start src dst : GraphRef}

theorem Fresh.edgesAside (h : env.Fresh before target targets) :
    EdgesAside before targets before before :=
  ⟨.refl _ _, fun _ _ => rfl, _, _, h.made .edge, h.made .edge, rfl⟩

/-! ## Statements -/

/-- The edges that two runs see within their restrictions are parallel. -/
def SeeParallel (env : Environment) (before : Database) (targets : TablePair)
    (edges? edges?' : Option String) : Prop :=
  ∀ db db', EdgesAside before targets db db' →
    Except.Alike Arc.Parallel (env.arcs db edges?) (env.arcs db' edges?')

/-- What is added to the edges of the target need not be alike. -/
theorem insertAside_alike {select select' : Database → Except Error Cells}
    (h : ∀ {db db'}, EdgesAside before targets db db' →
      Except.Alike (fun _ _ => True) (select db) (select' db')) :
    Alike (EdgesAside before targets) o phase (fun _ _ => True)
      (env.schema.insertNewIds targets.edges select)
      (env.schema.insertNewIds targets.edges select') := by
  unfold Schema.insertNewIds Schema.insertIds
  refine .update fun db db' hR => ?_
  refine .bind (q := fun _ _ => True) ?_ fun vs vs' _ _ _ => hR.insertEdges _ vs vs'
  have hpresent : Except.Alike (fun _ _ => True) (env.schema.ids db targets.edges)
      (env.schema.ids db' targets.edges) :=
    .bind (hR.tableWith _) fun _ _ _ _ _ => .ok trivial
  exact .bind hpresent fun _ _ _ _ _ => .bind (h hR) fun _ _ _ _ _ => .ok trivial

theorem arcsFor_parallel (h : env.SeeParallel before targets edges? edges?') (steps : Nat) :
    Alike (EdgesAside before targets) o phase Arc.Parallel (env.arcsFor edges? steps)
      (env.arcsFor edges?' steps) :=
  .ite (fun _ => .pure .nil) fun _ => .query h

/-- So is each choice among parallel edges. -/
theorem insertEdgesWithin_alike (h : env.SeeParallel before targets edges? edges?')
    (vs : List Value) :
    Alike (EdgesAside before targets) o phase (fun _ _ => True)
      (env.schema.insertNewIds targets.edges fun db => env.edgesWithin db edges? vs)
      (env.schema.insertNewIds targets.edges fun db => env.edgesWithin db edges?' vs) :=
  insertAside_alike fun hR => .bind (h _ _ hR) fun _ _ _ _ _ => .ok trivial

section Searches

variable (hfresh : env.Fresh before target targets)

include hfresh

theorem insertVertices_alike (vs : List Value) :
    Alike (EdgesAside before targets) o phase (fun _ _ => True)
      (env.schema.insertNewIds targets.vertices fun _ => return env.schema.scratchIds vs)
      (env.schema.insertNewIds targets.vertices fun _ => return env.schema.scratchIds vs) :=
  .insertNewIds (P := fun _ => False) (Value.ordered_of_texts fun _ h => h.elim)
    (EdgesAside.takes hfresh.parts env) fun _ => .ok (.refl _)

/-- No graph keeps its vertices where the target keeps its edges. -/
theorem Fresh.ids_eq {starts : TablePair} (hstart : env.resolve start = .ok starts)
    {db db' : Database} (hR : EdgesAside before targets db db') :
    env.schema.ids db starts.vertices = env.schema.ids db' starts.vertices :=
  Schema.ids_congr (hR.others _ (hfresh.kinds start starts hstart .vertex .edge (by simp)))

theorem seeds_aside {starts : TablePair} (hstart : env.resolve start = .ok starts) :
    Alike (EdgesAside before targets) o phase (· = ·) (env.seeds starts.vertices)
      (env.seeds starts.vertices) :=
  .query fun _ _ hR => .of_eq (by rw [hfresh.ids_eq hstart hR])

theorem seedsAmong_aside {starts : TablePair} (hstart : env.resolve start = .ok starts) :
    Alike (EdgesAside before targets) o phase (· = ·) (env.seedsAmong starts.vertices)
      (env.seedsAmong starts.vertices) :=
  .query fun _ _ hR => .of_eq (by rw [hfresh.ids_eq hstart hR])

/-! ## Searches -/

variable (hsee : env.SeeParallel before targets edges? edges?')

include hsee

theorem lineageAlong_parallel {starts : TablePair} (hstart : env.resolve start = .ok starts)
    (request request' steps : Nat) (way : Way) :
    Alike (EdgesAside before targets) o (.busy request request') (fun _ _ => True)
      (env.lineageAlong request targets edges? starts.vertices steps way)
      (env.lineageAlong request' targets edges?' starts.vertices steps way) := by
  unfold lineageAlong
  refine .bind (.createScratches _) fun _ _ _ => ?_
  refine .bind (seeds_aside hfresh hstart) fun seeds _ hseeds => ?_
  subst hseeds
  refine .bind (arcsFor_parallel hsee steps) fun arcs arcs' harcs => ?_
  have hreached := Frontier.explore_congr harcs.ends harcs.ordered way steps (.start seeds) [] []
  dsimp only
  rw [← hreached]
  exact .bind (insertVertices_alike hfresh _) fun _ _ _ => insertAside_alike fun _ => .ok trivial

omit hsee in
theorem writable_alike : Alike (EdgesAside before targets) o phase
    (fun tables tables' => tables = targets ∧ tables' = targets)
    (MonadLiftT.monadLift (env.writable (.named target)))
    (MonadLiftT.monadLift (env.writable (.named target))) := by
  rw [show env.writable (.named target) = .ok targets from hfresh.resolves]
  exact .lookup (.ok ⟨rfl, rfl⟩)

variable (hk : env.restriction? k .edge = .ok edges?) (hg : env.restriction? g .edge = .ok edges?')

include hk hg

omit hfresh hsee in
theorem pathTables_parallel : Except.Alike
    (fun paths paths' => ∃ sources destinations, env.resolve src = .ok sources ∧
      env.resolve dst = .ok destinations ∧
      paths = ⟨edges?, sources.vertices, destinations.vertices⟩ ∧
      paths' = ⟨edges?', sources.vertices, destinations.vertices⟩)
    (env.pathTables k src dst) (env.pathTables g src dst) := by
  unfold pathTables
  rw [hk, hg, ok_bind, ok_bind]
  refine .bind (.of_eq rfl) fun sources _ hsources _ heq => ?_
  subst heq
  refine .bind (.of_eq rfl) fun destinations _ hdestinations _ heq => ?_
  subst heq
  exact .ok ⟨sources, destinations, hsources, hdestinations, rfl, rfl⟩

theorem lineage_parallel (depth : Int) (direction : Direction) :
    Alike (EdgesAside before targets) o .idle (fun _ _ => True)
      (env.lineage (.named target) k start depth direction)
      (env.lineage (.named target) g start depth direction) := by
  unfold lineage
  refine .bind (writable_alike hfresh) fun tables tables' htables => ?_
  obtain ⟨rfl, rfl⟩ := htables
  rw [hk, hg]
  refine .guard (.bind (q := fun e e' => e = edges? ∧ e' = edges?') (.lookup (.ok ⟨rfl, rfl⟩))
    fun _ _ he => ?_)
  obtain ⟨rfl, rfl⟩ := he
  refine .bind (.sameLookup _) fun starts _ hstart => ?_
  obtain ⟨rfl, hstart⟩ := hstart
  exact .withScratch fun request request' => .forM fun way _ =>
    lineageAlong_parallel hfresh hsee hstart request request' _ way

theorem shortestPath_parallel (maxDepth : Int) :
    Alike (EdgesAside before targets) o .idle (fun _ _ => True)
      (env.shortestPath (.named target) k src dst maxDepth)
      (env.shortestPath (.named target) g src dst maxDepth) := by
  unfold shortestPath
  refine .bind (writable_alike hfresh) fun tables tables' htables => ?_
  obtain ⟨rfl, rfl⟩ := htables
  refine .guard (.bind (.lookup (pathTables_parallel hk hg)) fun paths paths' hpaths => ?_)
  obtain ⟨sources, destinations, hsources, hdestinations, rfl, rfl⟩ := hpaths
  refine .withScratch fun request request' => .bind (.createScratch _) fun _ _ _ => ?_
  refine .bind (.query hsee) fun arcs arcs' harcs => ?_
  refine .bind (.createScratch _) fun _ _ _ => .guard ?_
  refine .bind (.createScratches _) fun _ _ _ => ?_
  refine .bind (seeds_aside hfresh hdestinations) fun seeds _ hseeds => ?_
  refine .bind (.createScratches _) fun _ _ _ => ?_
  refine .bind (seedsAmong_aside hfresh hsources) fun among _ hamong => ?_
  subst hseeds hamong
  dsimp only
  rw [← Shortest.vertices_congr harcs.ends harcs.ordered]
  exact .guard (.bind (insertVertices_alike hfresh _) fun _ _ _ => insertEdgesWithin_alike hsee _)

theorem simplePath_parallel (maxDepth : Int) :
    Alike (EdgesAside before targets) o .idle (fun _ _ => True)
      (env.simplePath (.named target) k src dst maxDepth)
      (env.simplePath (.named target) g src dst maxDepth) := by
  unfold simplePath
  refine .bind (writable_alike hfresh) fun tables tables' htables => ?_
  obtain ⟨rfl, rfl⟩ := htables
  refine .guard (.bind (.lookup (pathTables_parallel hk hg)) fun paths paths' hpaths => ?_)
  obtain ⟨sources, destinations, hsources, hdestinations, rfl, rfl⟩ := hpaths
  refine .withScratch fun request request' => .bind (.createScratches _) fun _ _ _ => ?_
  refine .bind (seeds_aside hfresh hdestinations) fun seeds _ hseeds => ?_
  refine .bind (arcsFor_parallel hsee _) fun arcs arcs' harcs => ?_
  refine .bind (seedsAmong_aside hfresh hsources) fun among _ hamong => ?_
  subst hseeds hamong
  obtain ⟨hreached, hstages⟩ := directedWalks_congr harcs.ends harcs.ordered among seeds
    maxDepth.toNat
  dsimp only
  rw [← hreached]
  refine .guard (.bind (.forM_related hstages fun _ _ _ => ?_)
    fun _ _ _ => insertVertices_alike hfresh _)
  exact insertAside_alike fun _ => .ok trivial

theorem link_parallel (maxDepth : Int) :
    Alike (EdgesAside before targets) o .idle (fun _ _ => True)
      (env.link (.named target) k src dst maxDepth)
      (env.link (.named target) g src dst maxDepth) := by
  unfold link
  refine .bind (writable_alike hfresh) fun tables tables' htables => ?_
  obtain ⟨rfl, rfl⟩ := htables
  refine .ite (fun _ => .pure trivial) fun _ => ?_
  refine .bind (.lookup (pathTables_parallel hk hg)) fun paths paths' hpaths => ?_
  obtain ⟨sources, destinations, hsources, hdestinations, rfl, rfl⟩ := hpaths
  refine .withScratch fun request request' => .bind (.createScratches _) fun _ _ _ => ?_
  refine .bind (seeds_aside hfresh hdestinations) fun seeds _ hseeds => ?_
  refine .bind (arcsFor_parallel hsee _) fun arcs arcs' harcs => ?_
  refine .bind (seedsAmong_aside hfresh hsources) fun among _ hamong => ?_
  subst hseeds hamong
  dsimp only
  rw [← undirectedWalks_congr harcs.ends harcs.ordered]
  exact .guard (.bind (insertVertices_alike hfresh _) fun _ _ _ => insertEdgesWithin_alike hsee _)

end Searches

/-! ## What the two runs see -/

/-- Of the graphs none keeps its edges where the target does. -/
def OwnEdges (env : Environment) (targets : TablePair) (gs : List GraphRef) : Prop :=
  ∀ g ∈ gs, ∀ tables, env.resolve g = .ok tables →
    Name.folded tables.edges ≠ Name.folded targets.edges

/-- The graphs have the same edges in both databases. -/
def SameEdges (env : Environment) (gs : List GraphRef) (db db' : Database) : Prop :=
  ∀ g ∈ gs, ∀ tables, env.resolve g = .ok tables →
    db'.find? tables.edges = db.find? tables.edges

theorem Holds.of_sameEdges {gs : List GraphRef} {db db' : Database} {es : List Value}
    (h : env.Holds db g .edge es) (hs : env.SameEdges gs db db') (hg : g ∈ gs) :
    env.Holds db' g .edge es := by
  obtain ⟨tables, hr, t, ht, hlists⟩ := h
  exact ⟨tables, hr, t, (hs g hg tables hr).trans ht, hlists⟩

theorem exists_tables_of_restriction? {e : Element} {table : String}
    (h : env.restriction? g e = .ok (some table)) :
    ∃ tables, env.resolve g = .ok tables ∧ tables.part e = table := by
  cases g with
  | base => cases h
  | named name =>
    obtain ⟨tables, hr, htable⟩ := Except.bind_eq_ok.mp h
    exact ⟨tables, hr, by simpa using htable⟩

theorem arcs_congr {db db' : Database}
    (h : db'.find? env.schema.edgeTable = db.find? env.schema.edgeTable)
    (hedges : ∀ table ∈ edges?, db'.find? table = db.find? table) :
    env.arcs db' edges? = env.arcs db edges? := by
  have htable (columns : List String) :
      db'.tableWith (env.schema.annotationTable .edge) columns =
        db.tableWith (env.schema.annotationTable .edge) columns := by
    simp only [Database.tableWith, Database.table, Schema.annotationTable, h]
  cases edges? with
  | none => simp only [arcs, rowsInScope, htable, restrict]
  | some table =>
    simp only [arcs, rowsInScope, htable, restrict, Schema.ids_congr (hedges table rfl)]

/-- What is added to the target changes nothing in the edges that a run sees. -/
theorem arcs_of_same (hfresh : env.Fresh before target targets) {gs : List GraphRef}
    (hown : env.OwnEdges targets gs) (hg : g ∈ gs) (hr : env.restriction? g .edge = .ok edges?)
    {db : Database} (hs : Database.SameBut [targets.vertices, targets.edges] before db) :
    env.arcs db edges? = env.arcs before edges? := by
  refine arcs_congr (hfresh.edgeTable_of_same hs) fun table htable => hs table ?_
  obtain ⟨tables, htables, rfl⟩ :=
    exists_tables_of_restriction? (hr.trans (congrArg _ (Option.mem_def.mp htable)))
  simpa using ⟨hfresh.kinds g tables htables .edge .vertex (by simp), hown g hg tables htables⟩

theorem seeParallel_of_kept {t : Table} {es : List Value} {fields : List String}
    (hfresh : env.Fresh before target targets) (hown : env.OwnEdges targets [g, k])
    (ht : before.find? env.schema.edgeTable = some t) (htable : env.IsEdgeTable t)
    (hg : env.Holds before g .edge es) (hk : env.Holds before k .edge (env.keptIds t es fields))
    (hordered : Value.Ordered (Arc.IsEnd (env.HasEdge before g)))
    (hr : env.restriction? k .edge = .ok edges?) (hr' : env.restriction? g .edge = .ok edges?') :
    env.SeeParallel before targets edges? edges?' := by
  intro db db' hR
  obtain ⟨arcs, arcs', harcs, harcs', hparallel⟩ := parallel_of_kept ht htable hg hk hordered hr hr'
  rw [arcs_of_same hfresh hown (by simp) hr hR.same, harcs,
    arcs_of_same hfresh hown (by simp) hr' hR.same_right, harcs']
  exact .ok hparallel

end Environment

/-! ## Traversals -/

/-- A traversal, but for its target and the graph whose edges it follows. -/
inductive Traversal
  | adjacent (source : GraphRef) (direction : Direction)
  | lineage (start : GraphRef) (depth : Int) (direction : Direction)
  | shortestPath (src dst : GraphRef) (maxDepth : Int)
  | simplePath (src dst : GraphRef) (maxDepth : Int)
  | link (src dst : GraphRef) (maxDepth : Int)

def Traversal.over (target subject : GraphRef) : Traversal → Instruction
  | adjacent source direction => .adjacent target subject source direction
  | lineage start depth direction => .lineage target subject start depth direction
  | shortestPath src dst maxDepth => .shortestPath target subject src dst maxDepth
  | simplePath src dst maxDepth => .simplePath target subject src dst maxDepth
  | link src dst maxDepth => .link target subject src dst maxDepth

namespace Environment

variable {env : Environment} {s s' : Store} {t : Table} {vs es : List Value} {g : GraphRef}
  {name target : String} {tables targets : TablePair}

theorem traversal_alike [RegexLibrary] [Summation]
    {before : Database} {edges? edges?' : Option String} {k : GraphRef}
    {o : Origin} (hfresh : env.Fresh before target targets)
    (hsee : env.SeeParallel before targets edges? edges?')
    (hk : env.restriction? k .edge = .ok edges?) (hg : env.restriction? g .edge = .ok edges?')
    (traversal : Traversal) :
    Alike (EdgesAside before targets) o .idle (· = ·)
      ((traversal.over (.named target) k).run env) ((traversal.over (.named target) g).run env) := by
  cases traversal with
  | adjacent source direction => exact .writing (lineage_parallel hfresh hsee hk hg 1 direction)
  | lineage start depth direction => exact .writing (lineage_parallel hfresh hsee hk hg depth direction)
  | shortestPath src dst maxDepth => exact .writing (shortestPath_parallel hfresh hsee hk hg maxDepth)
  | simplePath src dst maxDepth => exact .writing (simplePath_parallel hfresh hsee hk hg maxDepth)
  | link src dst maxDepth => exact .writing (link_parallel hfresh hsee hk hg maxDepth)

/-! ## Collapsing -/

/-- Texts are told apart by their order. -/
theorem HasEdgeTable.ordered_ends {db : Database} (ht : env.HasEdgeTable db)
    (htext : env.schema.idAffinity = .text) :
    Value.Ordered fun v => v ≠ .null ∧ Arc.IsEnd (env.HasEdge db g) v := by
  refine Value.ordered_of_texts fun v hv => ?_
  obtain ⟨hnull, a, ha, hend⟩ := hv
  have hkeeps : env.schema.idAffinity.store v = v :=
    ha.keeps ht v (by rcases hend with rfl | rfl <;> simp)
  rw [htext] at hkeeps
  exact Affinity.exists_text hkeeps hnull

/-- Collapsing edges succeeds where the columns are not too many to group by. Then every traversal answers
over the collapsed edges as it does over the graph itself, and adds the same vertices to a fresh target,
whatever has come to the store in between. The order of values has to tell the ends of edges apart, as it
does texts and integers. -/
theorem collapse_keeps_traversals [RegexLibrary] [Summation]
    (ht : s.database.find? env.schema.edgeTable = some t)
    (htable : env.IsEdgeTable t) (hvertices : env.Holds s.database g .vertex vs)
    (hedges : env.Holds s.database g .edge es)
    (hordered : Value.Ordered fun v => v ≠ .null ∧ Arc.IsEnd (env.HasEdge s.database g) v)
    (hname : env.Fresh s.database name tables) (fields : List String) :
    let collapse : Instruction := .collapse (.named name) g fields
    (env.outcome s collapse = .ok .done ↔
      (env.groupColumns t fields).length ≤ Sql.columnLimit) ∧
    (env.outcome s collapse = .ok .done →
      ∀ s' target targets, s'.FreshRequests →
        env.SameEdges [.base, g, .named name] (env.issue s collapse).database s'.database →
        env.Fresh s'.database target targets → env.OwnEdges targets [g, .named name] →
        ∀ traversal : Traversal,
          let kept := traversal.over (.named target) (.named name)
          let all := traversal.over (.named target) g
          env.outcome s' kept = env.outcome s' all ∧
            (env.issue s' kept).database.find? targets.vertices =
              (env.issue s' all).database.find? targets.vertices) := by
  intro collapse
  have hdone : env.outcome s collapse = .ok .done ↔
      (env.groupColumns t fields).length ≤ Sql.columnLimit := by
    constructor
    · intro houtcome
      by_contra hlimit
      exact outcome_of_refused rfl (collapse_refused ht (Nat.lt_of_not_le hlimit)) houtcome
    · intro hfits
      exact (outcome_of_wp rfl (wp_collapse ht htable hvertices hedges hname hfits)).1
  refine ⟨hdone, fun houtcome s' target targets hrequests hsame hfresh hown traversal => ?_⟩
  obtain ⟨_, _, hkept, hbut⟩ :=
    outcome_of_wp (i := collapse) rfl
      (wp_collapse ht htable hvertices hedges hname (hdone.mp houtcome))
  -- the source still has its edges, and the target of the collapse has what is left of them
  have hg₁ : env.Holds (env.issue s collapse).database g .edge es := by
    refine hname.holds_of_same hbut hedges fun hnone => ?_
    rwa [hnone, keptIds_nil] at hkept
  have hk₁ : env.Holds (env.issue s collapse).database (.named name) .edge (env.keptIds t es fields) :=
    ⟨tables, hname.resolves, hkept⟩
  have hg := hg₁.of_sameEdges hsame (by simp)
  have hk := hk₁.of_sameEdges hsame (by simp)
  have ht' : s'.database.find? env.schema.edgeTable = some t :=
    (hsame .base (by simp) _ rfl).trans ((hname.edgeTable_of_same hbut).trans ht)
  have hordered' : Value.Ordered (Arc.IsEnd (env.HasEdge s'.database g)) := by
    refine hordered.withNull.mono fun v ⟨a, ha, hend⟩ => ⟨a, ?_, hend⟩
    rwa [hasEdge_iff ht hedges, ← hasEdge_iff ht' hg]
  obtain ⟨edges?, hr, _⟩ := hk.restriction?
  obtain ⟨edges?', hr', _⟩ := hg.restriction?
  have hsee := seeParallel_of_kept hfresh hown ht' htable hg hk hordered' hr hr'
  obtain ⟨houtcomes, haside, _⟩ := Alike.same_start hrequests hfresh.edgesAside
    (traversal_alike hfresh hsee hr hr' traversal)
  exact ⟨houtcomes.symm, haside.others _ hfresh.parts⟩

end Environment

/-! ## Two edges between the same vertices -/

namespace SmallWorld

/-- Two edges with the same ends. -/
def twoEdges : Table :=
  ⟨oneEdge.columns,
    [⟨[("hash", .text "e"), ("childhash", .text "a"), ("parenthash", .text "b")]⟩,
      ⟨[("hash", .text "f"), ("childhash", .text "a"), ("parenthash", .text "b")]⟩]⟩

/-- A world of two edges, with `src` at their beginning. -/
def doubled : Store :=
  let listing := environment.schema.listing []
  { start with
    database := (((((((Database.empty.put "vertex" (listing ["a", "b"])).put "edge" twoEdges).put
      (tables "src").vertices (listing ["a"])).put (tables "src").edges (listing [])).put
      (tables "dst").vertices (listing [])).put (tables "dst").edges (listing [])).put
      (tables "out").vertices (listing [])).put (tables "out").edges (listing []) }

theorem twoEdges_isEdgeTable : environment.IsEdgeTable twoEdges := by
  refine ⟨fun column hcolumn => ?_, by decide⟩
  simp only [Schema.reserved, List.mem_cons, List.not_mem_nil, or_false] at hcolumn
  rcases hcolumn with rfl | rfl | rfl
  all_goals
    refine ⟨by decide, by decide, ?_⟩
    unfold Affinity.Keeps
    decide

theorem doubled_fresh {name : String} (hname : name ∈ ["dst", "out"]) :
    environment.Fresh doubled.database name (tables name) := by
  refine ownTables.fresh (resolve_eq (List.mem_cons_of_mem _ hname)) (fun e => ?_)
    (annotationTable_ne (List.mem_cons_of_mem _ hname))
  simp only [List.mem_cons, List.not_mem_nil, or_false] at hname
  rcases hname with rfl | rfl <;> cases e <;> rfl

theorem doubled_edgeTable : doubled.database.find? environment.schema.edgeTable = some twoEdges :=
  rfl

theorem doubled_vertices :
    environment.Holds doubled.database .base .vertex [.text "a", .text "b"] :=
  ⟨_, rfl, Schema.lists_listing [] ["a", "b"] idAffinity_eq rfl⟩

theorem doubled_edges : environment.Holds doubled.database .base .edge [.text "e", .text "f"] := by
  exact ⟨_, rfl, twoEdges, doubled_edgeTable, twoEdges_isEdgeTable.keeps _ (by decide), by decide⟩

/-- What is left of the edges goes to `dst`. -/
def collapseEdges : Instruction := .collapse (.named "dst") .base []

def collapsed : Store := environment.issue doubled collapseEdges

def parents : Traversal := .lineage (.named "src") (1 : ℕ) .ancestor

theorem collapsed_same : Database.SameBut [(tables "dst").vertices, (tables "dst").edges]
    doubled.database collapsed.database :=
  (Environment.outcome_of_wp (i := collapseEdges) rfl
    (Environment.wp_collapse doubled_edgeTable twoEdges_isEdgeTable doubled_vertices doubled_edges
      (doubled_fresh (by simp)) (by decide))).2.2.2

theorem collapsed_find? {name : String}
    (hname : ∀ e, Name.folded name ≠ Name.folded ((tables "dst").part e)) :
    collapsed.database.find? name = doubled.database.find? name :=
  collapsed_same name (TablePair.forall_tables hname)

theorem collapsed_freshOut : environment.Fresh collapsed.database "out" (tables "out") := by
  refine ⟨rfl, fun e => ?_, (doubled_fresh (by simp)).apart, (doubled_fresh (by simp)).kinds⟩
  rw [collapsed_find? fun e' => by cases e <;> cases e' <;> decide]
  exact (doubled_fresh (by simp)).made e

theorem doubled_freshRequests : doubled.FreshRequests := by
  simp [Store.FreshRequests, doubled, start, Store.create]

/-- The edges themselves lead from `src` to `b`. -/
theorem wp_parents : (environment.lineage (.named "out") .base (.named "src") (1 : ℕ) .ancestor).wp
    (fun _ s' => ∃ vs, environment.schema.Lists s'.database (tables "out").vertices vs ∧
      .text "b" ∈ vs) collapsed := by
  have hscratch : collapsed.CanScratch := by
    rw [Store.CanScratch, collapsed,
      Environment.scratchStem_issue environment_apart doubled_freshRequests]
    decide
  have hfind : collapsed.database.find? environment.schema.edgeTable = some twoEdges :=
    (collapsed_find? fun e => by cases e <;> decide).trans doubled_edgeTable
  have hedges : environment.Holds collapsed.database .base .edge [.text "e", .text "f"] :=
    ⟨_, rfl, twoEdges, hfind, twoEdges_isEdgeTable.keeps _ (by decide), by decide⟩
  have hsrc : environment.Holds collapsed.database (.named "src") .vertex [.text "a"] :=
    ⟨_, rfl, Schema.lists_listing [] ["a"] idAffinity_eq
      (collapsed_find? fun e => by cases e <;> decide)⟩
  refine (Environment.wp_lineage hscratch collapsed_freshOut ⟨twoEdges, hfind, twoEdges_isEdgeTable⟩
    hedges hsrc (by simp) 1 .ancestor).mono fun _ s' h => ?_
  obtain ⟨vs, hvs, _, hmem⟩ := h.vertices
  have hedge : environment.HasEdge collapsed.database .base (arc ("e", "a", "b")) :=
    (Environment.hasEdge_iff hfind hedges).mpr ⟨by decide, _, List.mem_cons_self, rfl⟩
  have hleads : Leads (environment.HasEdge collapsed.database .base) .ancestor (.text "a")
      (.text "b") := ⟨_, hedge, rfl, rfl, by simp, by simp⟩
  exact ⟨vs, hvs, (hmem _).mpr ⟨.ancestor, by simp [Direction.ways], 1, le_rfl, .text "a", by simp,
    .snoc (.nil _) hleads⟩⟩

/-- What is left of the two edges still leads to `b`. -/
theorem collapse_keeps_traversals_doubled :
    environment.outcome doubled collapseEdges = .ok .done ∧
      environment.outcome collapsed (parents.over (.named "out") (.named "dst")) = .ok .done ∧
      ∃ vs, environment.schema.Lists
        (environment.issue collapsed (parents.over (.named "out") (.named "dst"))).database
        (tables "out").vertices vs ∧ .text "b" ∈ vs := by
  have hordered : Value.Ordered fun v =>
      v ≠ .null ∧ Arc.IsEnd (environment.HasEdge doubled.database .base) v :=
    Environment.HasEdgeTable.ordered_ends ⟨_, doubled_edgeTable, twoEdges_isEdgeTable⟩ idAffinity_eq
  have hdst : environment.Fresh doubled.database "dst" (tables "dst") := doubled_fresh (by simp)
  obtain ⟨hdone, hkeeps⟩ := Environment.collapse_keeps_traversals (g := .base)
    doubled_edgeTable twoEdges_isEdgeTable doubled_vertices doubled_edges hordered hdst []
  have houtcome : environment.outcome doubled collapseEdges = .ok .done := hdone.mpr (by decide)
  have hown : environment.OwnEdges (tables "out") [.base, .named "dst"] := by
    intro g hg found hr
    simp only [List.mem_cons, List.not_mem_nil, or_false] at hg
    rcases hg with rfl | rfl <;> obtain rfl := Except.ok.inj hr <;> decide
  obtain ⟨heq, hfind⟩ := hkeeps houtcome collapsed "out" (tables "out")
    ((collapseEdges.run_after environment doubled).fresh doubled_freshRequests)
    (fun _ _ _ _ => rfl) collapsed_freshOut hown parents
  obtain ⟨hall, vs, ⟨t, ht, hkeeps⟩, hb⟩ :=
    Environment.outcome_of_wp (i := parents.over (.named "out") .base) rfl wp_parents
  exact ⟨houtcome, heq.trans hall, vs, ⟨t, hfind.trans ht, hkeeps⟩, hb⟩

end SmallWorld
end Provenance
