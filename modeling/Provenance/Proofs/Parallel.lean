-- SUMMARY: Every instruction, run on two databases that reflect each other, goes alike.
import Provenance.Proofs.Counterparts
import Provenance.Proofs.Refusals

/-!
# Instructions side by side

The instructions one by one: with counterparts for source graphs, and on databases that reflect each
other, two runs go alike. Instructions that read annotations under their keys are left to the user
(`Instruction.readsKeys`), since what is alike there depends on the keys.
-/
namespace Provenance

open Program

/-- The instruction names annotation keys, or answers with all of them. -/
def Instruction.readsKeys : Instruction → Bool
  | select _ _ _ p => p.isSome
  | selectCarriers _ _ _ => true
  | matchVertices _ _ _ _ => true
  | collapse _ _ _ => true
  | statisticSize _ _ _ => true
  | mean _ _ _ => true
  | standardDeviation _ _ _ => true
  | histogram _ _ _ => true
  | distribution _ _ _ _ => true
  | description _ => true
  | exportVertices _ => true
  | exportEdges _ => true
  | _ => false

/-- The same instruction, but for source graphs of which each is related to that in its place. -/
inductive Instruction.Like (φ : GraphRef → GraphRef → Prop) : Instruction → Instruction → Prop
  | createEmpty {t : GraphRef} : Like φ (.createEmpty t) (.createEmpty t)
  | distinctify {t g g' : GraphRef} (h : φ g g') : Like φ (.distinctify t g) (.distinctify t g')
  | union {t g g' : GraphRef} (h : φ g g') : Like φ (.union t g) (.union t g')
  | intersect {t g g' k k' : GraphRef} (h : φ g g') (h' : φ k k') :
      Like φ (.intersect t g k) (.intersect t g' k')
  | subtract {t g g' k k' : GraphRef} {c : Component} (h : φ g g') (h' : φ k k') :
      Like φ (.subtract t g k c) (.subtract t g' k' c)
  | limit {t g g' : GraphRef} {n : Int} (h : φ g g') : Like φ (.limit t g n) (.limit t g' n)
  | insertGiven {e : Element} {t : GraphRef} {ids : List String} :
      Like φ (.insertGiven e t ids) (.insertGiven e t ids)
  | select {e : Element} {t g g' : GraphRef} {p : Option Predicate} (h : φ g g') :
      Like φ (.select e t g p) (.select e t g' p)
  | selectCarriers {t g g' : GraphRef} {keys : List String} (h : φ g g') :
      Like φ (.selectCarriers t g keys) (.selectCarriers t g' keys)
  | matchVertices {t g g' k k' : GraphRef} {keys : List String} (h : φ g g') (h' : φ k k') :
      Like φ (.matchVertices t g k keys) (.matchVertices t g' k' keys)
  | endpoints {t g g' : GraphRef} {endpoint : Endpoint} (h : φ g g') :
      Like φ (.endpoints t g endpoint) (.endpoints t g' endpoint)
  | subgraph {t g g' k k' : GraphRef} (h : φ g g') (h' : φ k k') :
      Like φ (.subgraph t g k) (.subgraph t g' k')
  | collapse {t g g' : GraphRef} {fields : List String} (h : φ g g') :
      Like φ (.collapse t g fields) (.collapse t g' fields)
  | adjacent {t g g' k k' : GraphRef} {d : Direction} (h : φ g g') (h' : φ k k') :
      Like φ (.adjacent t g k d) (.adjacent t g' k' d)
  | lineage {t g g' k k' : GraphRef} {n : Int} {d : Direction} (h : φ g g') (h' : φ k k') :
      Like φ (.lineage t g k n d) (.lineage t g' k' n d)
  | shortestPath {t g g' k k' l l' : GraphRef} {n : Int} (h : φ g g') (h' : φ k k') (h'' : φ l l') :
      Like φ (.shortestPath t g k l n) (.shortestPath t g' k' l' n)
  | simplePath {t g g' k k' l l' : GraphRef} {n : Int} (h : φ g g') (h' : φ k k') (h'' : φ l l') :
      Like φ (.simplePath t g k l n) (.simplePath t g' k' l' n)
  | link {t g g' k k' l l' : GraphRef} {n : Int} (h : φ g g') (h' : φ k k') (h'' : φ l l') :
      Like φ (.link t g k l n) (.link t g' k' l' n)
  | count {g g' : GraphRef} (h : φ g g') : Like φ (.count g) (.count g')
  | statisticSize {g g' : GraphRef} {e : Element} {key : String} (h : φ g g') :
      Like φ (.statisticSize g e key) (.statisticSize g' e key)
  | mean {g g' : GraphRef} {e : Element} {key : String} (h : φ g g') :
      Like φ (.mean g e key) (.mean g' e key)
  | standardDeviation {g g' : GraphRef} {e : Element} {key : String} (h : φ g g') :
      Like φ (.standardDeviation g e key) (.standardDeviation g' e key)
  | histogram {g g' : GraphRef} {e : Element} {key : String} (h : φ g g') :
      Like φ (.histogram g e key) (.histogram g' e key)
  | distribution {g g' : GraphRef} {e : Element} {key : String} {bins : Int} (h : φ g g') :
      Like φ (.distribution g e key bins) (.distribution g' e key bins)
  | description {g g' : GraphRef} (h : φ g g') : Like φ (.description g) (.description g')
  | exportVertices {g g' : GraphRef} (h : φ g g') : Like φ (.exportVertices g) (.exportVertices g')
  | exportEdges {g g' : GraphRef} (h : φ g g') : Like φ (.exportEdges g) (.exportEdges g')
  | createEmptyMetadata {m : String} : Like φ (.createEmptyMetadata m) (.createEmptyMetadata m)
  | overwriteMetadata {m l r : String} :
      Like φ (.overwriteMetadata m l r) (.overwriteMetadata m l r)
  | setMetadata {m n v : String} {c : Component} {g g' : GraphRef} (h : φ g g') :
      Like φ (.setMetadata m c g n v) (.setMetadata m c g' n v)

theorem Instruction.Like.mono {φ ψ : GraphRef → GraphRef → Prop} {i j : Instruction}
    (h : i.Like φ j) (hφ : ∀ g g', φ g g' → ψ g g') : i.Like ψ j := by
  cases h <;> constructor <;> apply hφ <;> assumption

/-- With the same sources. -/
theorem Instruction.Like.refl {φ : GraphRef → GraphRef → Prop} {i : Instruction}
    (h : ∀ g, .graph g ∈ i.sources → φ g g) : i.Like φ i := by
  cases i <;> constructor <;> exact h _ (by simp [sources])

/-- The names of the metadata that the instruction reads or adds to. -/
def Instruction.metadataHandles : Instruction → List String
  | overwriteMetadata target lhs rhs => [target, lhs, rhs]
  | _ => []

theorem Instruction.mem_handles_of_metadata {i : Instruction} {name : String}
    (h : name ∈ i.metadataHandles) : .metadata name ∈ i.handles := by
  cases i with
  | overwriteMetadata target lhs rhs =>
    simpa [metadataHandles, handles, target?, access?, Access.target, sources] using h
  | _ => cases h

namespace Environment

section Instructions

variable {env : Environment} {R : Database → Database → Prop} {P : Value → Prop}
  {T : Element → String → String → Prop} {S : Element → Option String → Option String → Prop}
  {o : Origin} {phase : Phase} {target : GraphRef}
  {g g' k k' l l' : GraphRef}

/-- Both runs add ids to the tables of the graph. -/
def TakesGraph (env : Environment) (R : Database → Database → Prop) (target : GraphRef) : Prop :=
  ∀ tables, env.writable target = .ok tables → ∀ e, env.Takes R (tables.part e)

/-- Both runs make the tables of the handle anew. -/
def RemakesHandle (env : Environment) (R : Database → Database → Prop) (target : Handle) : Prop :=
  ∀ tables, env.writableTables target = .ok tables → ∀ e, Database.Remade R (tables.part e)

/-! ## Set algebra -/

theorem createEmpty_alike (htarget : env.RemakesHandle R (.graph target)) :
    Alike R o phase (fun _ _ => True) (env.createEmpty target) (env.createEmpty target) := by
  unfold createEmpty
  refine .bind (.sameLookup _) fun tables _ hq => ?_
  obtain ⟨rfl, htables⟩ := hq
  rw [forBoth_eq_forM]
  exact .forM fun e _ => .createTable (htarget tables htables e) _ _

variable (h : env.Reflects R P T S) (htarget : env.TakesGraph R target)

include h

/-- The ids of counterpart tables, grouped. -/
theorem Reflects.groups_eq {db db' : Database} {e : Element} {table table' : String} (hR : R db db')
    (hT : T e table table') :
    (do return Value.groups (← env.schema.ids db table).values : Except Error (List Value)) =
      do return Value.groups (← env.schema.ids db' table').values :=
  Except.Alike.eq (.bind (h.ids hR hT) fun _ _ _ _ hc => .ok (hc.values.groups_eq h.ordered))

theorem count_alike (hg : env.Counterparts T S g g') :
    Alike R o phase (· = ·) (env.count g) (env.count g') := by
  unfold count
  refine .bind (.lookup hg.tables) fun tables tables' hT => ?_
  have hsize (e : Element) : Alike R o phase (· = ·)
      (Program.query fun db => return (← db.table (tables.part e)).rows.length)
      (Program.query fun db => return (← db.table (tables'.part e)).rows.length) :=
    .query fun _ _ hR => .bind (h.size hR (hT e)) fun _ _ _ _ hlen => .ok hlen
  refine .bind (hsize .vertex) fun vertices _ hvertices => ?_
  refine .bind (hsize .edge) fun edges _ hedges => .pure ?_
  rw [hvertices, hedges]

include htarget

theorem distinctify_alike (hg : env.Counterparts T S g g') :
    Alike R o phase (fun _ _ => True) (env.distinctify target g)
      (env.distinctify target g') := by
  unfold distinctify
  refine .bind (.sameLookup _) fun tables _ hq => ?_
  obtain ⟨rfl, htables⟩ := hq
  refine .bind (.lookup hg.tables) fun sources sources' hT => ?_
  rw [forBoth_eq_forM, forBoth_eq_forM]
  refine .forM fun e _ => .insertIds (htarget tables htables e) fun hR => ?_
  exact h.groups_eq hR (hT e)

theorem union_alike (hg : env.Counterparts T S g g') :
    Alike R o phase (fun _ _ => True) (env.union target g) (env.union target g') := by
  unfold union
  refine .bind (.sameLookup _) fun tables _ hq => ?_
  obtain ⟨rfl, htables⟩ := hq
  refine .bind (.lookup hg.tables) fun sources sources' hT => ?_
  rw [forBoth_eq_forM, forBoth_eq_forM]
  exact .forM fun e _ => .insertNewIds h.ordered (htarget tables htables e) fun hR => h.ids hR (hT e)

theorem intersect_alike (hg : env.Counterparts T S g g') (hk : env.Counterparts T S k k') :
    Alike R o phase (fun _ _ => True) (env.intersect target g k)
      (env.intersect target g' k') := by
  unfold intersect
  refine .bind (.sameLookup _) fun tables _ hq => ?_
  obtain ⟨rfl, htables⟩ := hq
  refine .bind (.lookup hg.tables) fun lefts lefts' hlefts => ?_
  refine .bind (.lookup hk.tables) fun rights rights' hrights => ?_
  rw [forBoth_eq_forM, forBoth_eq_forM]
  refine .forM fun e _ => .insertIds (htarget tables htables e) fun hR => Except.Alike.eq ?_
  refine .bind (h.ids hR (hlefts e)) fun left left' _ _ hleft => ?_
  refine .bind (h.ids hR (hrights e)) fun right right' _ _ hright => .ok ?_
  exact (hleft.within hright).values.groups_eq h.ordered

theorem subtract_alike (hg : env.Counterparts T S g g') (hk : env.Counterparts T S k k')
    (component : Component) :
    Alike R o phase (fun _ _ => True) (env.subtract target g k component)
      (env.subtract target g' k' component) := by
  unfold subtract
  refine .bind (.sameLookup _) fun tables _ hq => ?_
  obtain ⟨rfl, htables⟩ := hq
  refine .bind (.lookup hg.tables) fun lefts lefts' hlefts => ?_
  refine .bind (.lookup hk.tables) fun rights rights' hrights => ?_
  refine .forM fun e _ => .insertIds (htarget tables htables e) fun hR => Except.Alike.eq ?_
  refine .bind (h.ids hR (hlefts e)) fun left left' _ _ hleft => ?_
  refine .bind (h.ids hR (hrights e)) fun right right' _ _ hright => .ok ?_
  exact (hleft.without hright).values.groups_eq h.ordered

theorem limit_alike (hg : env.Counterparts T S g g') (bound : Int) :
    Alike R o phase (fun _ _ => True) (env.limit target g bound)
      (env.limit target g' bound) := by
  unfold limit
  refine .guard (.bind (.sameLookup _) fun tables _ hq => ?_)
  obtain ⟨rfl, htables⟩ := hq
  refine .bind (count_alike h hg) fun sizes _ hsizes => ?_
  subst hsizes
  refine .bind (.lookup hg.tables) fun sources sources' hT => ?_
  rw [forBoth_eq_forM, forBoth_eq_forM]
  refine .forM fun e _ => .ite (fun _ => ?_) fun _ => .pure trivial
  refine .insertIds (htarget tables htables e) fun hR => Except.Alike.eq ?_
  refine .guard Iff.rfl fun _ => .bind (h.ids hR (hT e)) fun _ _ _ _ hc => .ok ?_
  rw [hc.values.groups_eq h.ordered]

/-! ## Elements and structure -/

theorem insertGiven_alike (e : Element) (ids : List String) :
    Alike R o .idle (fun _ _ => True) (env.insertGiven e target ids)
      (env.insertGiven e target ids) := by
  unfold insertGiven
  refine .bind (.sameLookup _) fun tables _ hq => ?_
  obtain ⟨rfl, htables⟩ := hq
  refine .ite (fun _ => .pure trivial) fun _ => .withScratch fun request request' => ?_
  refine .bind (.createScratch _) fun _ _ _ => ?_
  refine .insertNewIds h.ordered (htarget tables htables e) fun hR => ?_
  refine .bind (.of_eq (h.annotated e hR)) fun c _ _ _ hc => ?_
  subst hc
  exact .ok (.refl _)

theorem selectAll_alike [RegexLibrary] (e : Element) (hg : env.Counterparts T S g g') :
    Alike R o phase (fun _ _ => True) (env.select e target g none)
      (env.select e target g' none) := by
  unfold select
  refine .bind (.sameLookup _) fun tables _ hq => ?_
  obtain ⟨rfl, htables⟩ := hq
  refine .bind (.lookup hg.tables) fun sources sources' hT => ?_
  refine .bind (.lookup (hg.restriction e)) fun _ _ _ => ?_
  exact .insertIds (htarget tables htables e) fun hR => h.groups_eq hR (hT e)

theorem endpoints_alike (hg : env.Counterparts T S g g') (endpoint : Endpoint) :
    Alike R o .idle (fun _ _ => True) (env.endpoints target g endpoint)
      (env.endpoints target g' endpoint) := by
  unfold endpoints
  refine .bind (.sameLookup _) fun tables _ hq => ?_
  obtain ⟨rfl, htables⟩ := hq
  refine .bind (.lookup hg.tables) fun sources sources' hT => ?_
  refine .withScratch fun request request' => .bind (.createScratch _) fun _ _ _ => ?_
  refine .bind (q := fun found found' => found = found') ?_ fun found _ hfound => ?_
  · refine (Alike.mapM (q := (· = ·)) fun column hcolumn => .query fun db db' hR => ?_).mono
      fun found found' hfound => by simpa using hfound
    have hends := h.ends hR (hT .edge) (endpointColumns_subset endpoint hcolumn)
    exact .bind hends fun c c' _ _ hc => .ok (congrArg _ hc.1)
  · subst hfound
    exact .insertNewIds h.ordered (htarget tables htables .vertex) fun _ => .ok (.refl _)

omit htarget in
theorem Reflects.edgesWithin {db db' : Database} {table? table?' : Option String} (hR : R db db')
    (hS : S .edge table? table?') (vs : List Value) :
    env.edgesWithin db table? vs = env.edgesWithin db' table?' vs := by
  unfold Environment.edgesWithin
  rw [h.arcs hR hS]

omit htarget in
/-- The ends of the edges of one graph that are vertices of another. -/
theorem Reflects.endsInside {subjects subjects' skeletons skeletons' : TablePair}
    (hsubjects : ∀ e, T e (subjects.part e) (subjects'.part e))
    (hskeletons : ∀ e, T e (skeletons.part e) (skeletons'.part e)) :
    Alike R o phase
      (fun ends ends' => ends = ends' ∧ ∀ v w, P w → v ∈ ends.flatten → P v)
      ((env.endpointColumns .both).mapM fun column => Program.query fun db => do
        let inside ← env.schema.ids db subjects.vertices
        return ((← env.endpointsIn db skeletons.edges column).within inside).values)
      ((env.endpointColumns .both).mapM fun column => Program.query fun db => do
        let inside ← env.schema.ids db subjects'.vertices
        return ((← env.endpointsIn db skeletons'.edges column).within inside).values) := by
  let Ends (vs vs' : List Value) : Prop := vs = vs' ∧ ∀ v w, P w → v ∈ vs → P v
  refine (Alike.mapM (q := Ends) fun column hcolumn => .query fun db db' hR => ?_).mono
    fun ends ends' hends => ?_
  · refine .bind (h.ids hR (hsubjects .vertex)) fun inside inside' _ _ hinside => ?_
    refine .bind (h.ends hR (hskeletons .edge) hcolumn) fun c _ _ _ hc => .ok ?_
    obtain ⟨rfl, hP⟩ := hc
    refine ⟨by rw [hinside.within_eq], fun v w hw hv => ?_⟩
    exact hP v w hw (Cells.mem_within hv).1 (Cells.mem_within hv).2
  · obtain rfl : ends = ends' := by simpa using hends.imp fun _ _ hvs => hvs.1
    refine ⟨rfl, fun v w hw hv => ?_⟩
    obtain ⟨vs, hvs, hv⟩ := List.mem_flatten.mp hv
    exact (List.forall₂_same.mp hends vs hvs).2 v w hw hv

/-- The vertices that a subgraph has: those of the skeleton, in one order or another, and then the ends
of its edges. -/
theorem subgraph_alike (hg : env.Counterparts T S g g') (hk : env.Counterparts T S k k') :
    Alike R o .idle (fun _ _ => True) (env.subgraph target g k)
      (env.subgraph target g' k') := by
  unfold subgraph
  refine .bind (.sameLookup _) fun tables _ hq => ?_
  obtain ⟨rfl, htables⟩ := hq
  refine .bind (.lookup hg.tables) fun subjects subjects' hsubjects => ?_
  refine .bind (.lookup hk.tables) fun skeletons skeletons' hskeletons => ?_
  refine .withScratch fun request request' => .bind (.createScratch _) fun _ _ _ => ?_
  refine .bind (q := Value.Reordered P) (.query fun db db' hR => ?_) fun own own' hown => ?_
  · refine .bind (h.ids hR (hsubjects .vertex)) fun inside inside' _ _ hinside => ?_
    refine .bind (h.ids hR (hskeletons .vertex)) fun ids ids' _ _ hids => .ok ?_
    exact (hids.within hinside).values
  refine .bind (h.endsInside hsubjects hskeletons) fun ends _ hends => ?_
  obtain ⟨rfl, hP⟩ := hends
  have hanswer := env.schema.sameIds_scratchIds h.stored (hown.append hP)
  refine .bind (.insertNewIds h.ordered (htarget tables htables .vertex) fun _ => .ok hanswer)
    fun _ _ _ => ?_
  refine .insertNewIds h.ordered (htarget tables htables .edge) fun {db db'} hR => ?_
  refine .bind (h.ids hR (hsubjects .edge)) fun ids ids' _ _ hids => ?_
  refine .bind (q := (· = ·)) (.of_eq ?_) fun edges _ _ _ hedges => ?_
  · rw [h.edgesWithin hR h.whole, Environment.edgesWithin, Environment.edgesWithin]
    simp only [Arc.within, Value.memberOf, hanswer.values.isIn_eq]
  · subst hedges
    exact .ok (hids.within (.refl _))

/-! ## Searches -/

omit htarget in
theorem arcsFor_alike {table? table?' : Option String} (hS : S .edge table? table?') (steps : Nat) :
    Alike R o phase (· = ·) (env.arcsFor table? steps) (env.arcsFor table?' steps) :=
  .ite (fun _ => .pure rfl) fun _ => .query fun _ _ hR => .of_eq (h.arcs hR hS)

omit htarget in
/-- Searches begin with groups. -/
theorem seeds_alike {table table' : String} (hT : T .vertex table table') :
    Alike R o phase (fun vs vs' => Value.groups vs = Value.groups vs') (env.seeds table)
      (env.seeds table') := by
  refine .query fun _ _ hR => .bind (h.ids hR hT) fun _ _ _ _ hids => .ok ?_
  exact (env.schema.sameIds_scratchIds h.stored hids.values).values.groups_eq h.ordered

omit htarget in
theorem seedsAmong_alike {table table' : String} (hT : T .vertex table table') :
    Alike R o phase
      (fun among among' => ∀ vs, Value.groups (among vs) = Value.groups (among' vs))
      (env.seedsAmong table) (env.seedsAmong table') := by
  refine .query fun _ _ hR => .bind (h.ids hR hT) fun _ _ _ _ hids => .ok fun vs => ?_
  have hamong := hids.within (.refl (env.schema.scratchIds vs))
  exact (env.schema.sameIds_scratchIds h.stored hamong.values).values.groups_eq h.ordered

theorem lineageAlong_alike {request request' : Nat} {tables : TablePair}
    (htables : env.writable target = .ok tables) {edges? edges?' : Option String}
    (hS : S .edge edges? edges?') {start start' : String} (hT : T .vertex start start') (steps : Nat)
    (way : Way) :
    Alike R o (.busy request request') (fun _ _ => True)
      (env.lineageAlong request tables edges? start steps way)
      (env.lineageAlong request' tables edges?' start' steps way) := by
  unfold lineageAlong
  refine .bind (.createScratches _) fun _ _ _ => ?_
  refine .bind (seeds_alike h hT) fun seeds seeds' hseeds => ?_
  refine .bind (arcsFor_alike h hS steps) fun arcs _ harcs => ?_
  subst harcs
  have hstart : Frontier.start seeds = Frontier.start seeds' := by simp only [Frontier.start, hseeds]
  rw [hstart]
  refine .bind (.insertNewIds h.ordered (htarget tables htables .vertex) fun _ => .ok (.refl _))
    fun _ _ _ => ?_
  exact .insertNewIds h.ordered (htarget tables htables .edge) fun _ => .ok (.refl _)

theorem lineage_alike (hg : env.Counterparts T S g g') (hk : env.Counterparts T S k k') (depth : Int)
    (direction : Direction) :
    Alike R o .idle (fun _ _ => True) (env.lineage target g k depth direction)
      (env.lineage target g' k' depth direction) := by
  unfold lineage
  refine .bind (.sameLookup _) fun tables _ hq => ?_
  obtain ⟨rfl, htables⟩ := hq
  refine .guard (.bind (.lookup (hg.restriction .edge)) fun edges? edges?' hS => ?_)
  refine .bind (.lookup hk.tables) fun starts starts' hT => ?_
  refine .withScratch fun request request' => .forM fun way _ => ?_
  exact lineageAlong_alike h htarget htables hS (hT .vertex) _ way

omit h htarget in
theorem pathTables_alike (hg : env.Counterparts T S g g') (hk : env.Counterparts T S k k')
    (hl : env.Counterparts T S l l') :
    Except.Alike (fun paths paths' => S .edge paths.edges? paths'.edges? ∧
        T .vertex paths.sources paths'.sources ∧ T .vertex paths.destinations paths'.destinations)
      (env.pathTables g k l) (env.pathTables g' k' l') :=
  .bind (hg.restriction .edge) fun _ _ _ _ hS => .bind hk.tables fun _ _ _ _ hsources =>
    .bind hl.tables fun _ _ _ _ hdestinations =>
      .ok ⟨hS, hsources .vertex, hdestinations .vertex⟩

theorem shortestPath_alike (hg : env.Counterparts T S g g') (hk : env.Counterparts T S k k')
    (hl : env.Counterparts T S l l') (maxDepth : Int) :
    Alike R o .idle (fun _ _ => True) (env.shortestPath target g k l maxDepth)
      (env.shortestPath target g' k' l' maxDepth) := by
  unfold shortestPath
  refine .bind (.sameLookup _) fun tables _ hq => ?_
  obtain ⟨rfl, htables⟩ := hq
  refine .guard (.bind (.lookup (pathTables_alike hg hk hl)) fun paths paths' hpaths => ?_)
  obtain ⟨hS, hsources, hdestinations⟩ := hpaths
  refine .withScratch fun request request' => .bind (.createScratch _) fun _ _ _ => ?_
  refine .bind (.query fun _ _ hR => .of_eq (h.arcs hR hS)) fun arcs _ harcs => ?_
  subst harcs
  refine .bind (.createScratch _) fun _ _ _ => .guard ?_
  refine .bind (.createScratches _) fun _ _ _ => ?_
  refine .bind (seeds_alike h hdestinations) fun seeds seeds' hseeds => ?_
  refine .bind (.createScratches _) fun _ _ _ => ?_
  refine .bind (seedsAmong_alike h hsources) fun among among' hamong => ?_
  have hvertices (merged : Bool) (n : Nat) :
      Shortest.vertices merged arcs among seeds n = Shortest.vertices merged arcs among' seeds' n := by
    simp only [Shortest.vertices, Shortest.Back.start, Frontier.start, hseeds, hamong]
  dsimp only
  rw [hvertices]
  refine .guard (.bind (.insertNewIds h.ordered (htarget tables htables .vertex)
    fun _ => .ok (.refl _)) fun _ _ _ => ?_)
  exact .insertNewIds h.ordered (htarget tables htables .edge) fun hR =>
    (Except.Alike.of_eq (h.edgesWithin hR hS _)).mono fun _ _ => .of_eq

theorem simplePath_alike (hg : env.Counterparts T S g g') (hk : env.Counterparts T S k k')
    (hl : env.Counterparts T S l l') (maxDepth : Int) :
    Alike R o .idle (fun _ _ => True) (env.simplePath target g k l maxDepth)
      (env.simplePath target g' k' l' maxDepth) := by
  unfold simplePath
  refine .bind (.sameLookup _) fun tables _ hq => ?_
  obtain ⟨rfl, htables⟩ := hq
  refine .guard (.bind (.lookup (pathTables_alike hg hk hl)) fun paths paths' hpaths => ?_)
  obtain ⟨hS, hsources, hdestinations⟩ := hpaths
  refine .withScratch fun request request' => .bind (.createScratches _) fun _ _ _ => ?_
  refine .bind (seeds_alike h hdestinations) fun seeds seeds' hseeds => ?_
  refine .bind (arcsFor_alike h hS _) fun arcs _ harcs => ?_
  subst harcs
  refine .bind (seedsAmong_alike h hsources) fun among among' hamong => ?_
  have hwalks (n : Nat) :
      directedWalks arcs among seeds n = directedWalks arcs among' seeds' n := by
    simp only [directedWalks, Frontier.restart, Frontier.start, hseeds, hamong]
  rw [hwalks]
  refine .guard (.bind (.forM fun stage _ => ?_) fun _ _ _ => ?_)
  · exact .insertNewIds h.ordered (htarget tables htables .edge) fun _ => .ok (.refl _)
  · exact .insertNewIds h.ordered (htarget tables htables .vertex) fun _ => .ok (.refl _)

theorem link_alike (hg : env.Counterparts T S g g') (hk : env.Counterparts T S k k')
    (hl : env.Counterparts T S l l') (maxDepth : Int) :
    Alike R o .idle (fun _ _ => True) (env.link target g k l maxDepth)
      (env.link target g' k' l' maxDepth) := by
  unfold link
  refine .bind (.sameLookup _) fun tables _ hq => ?_
  obtain ⟨rfl, htables⟩ := hq
  refine .ite (fun _ => .pure trivial) fun _ => ?_
  refine .bind (.lookup (pathTables_alike hg hk hl)) fun paths paths' hpaths => ?_
  obtain ⟨hS, hsources, hdestinations⟩ := hpaths
  refine .withScratch fun request request' => .bind (.createScratches _) fun _ _ _ => ?_
  refine .bind (seeds_alike h hdestinations) fun seeds seeds' hseeds => ?_
  refine .bind (arcsFor_alike h hS _) fun arcs _ harcs => ?_
  subst harcs
  refine .bind (seedsAmong_alike h hsources) fun among among' hamong => ?_
  have hwalks (n : Nat) :
      undirectedWalks arcs among seeds n = undirectedWalks arcs among' seeds' n := by
    simp only [undirectedWalks, Frontier.restart, Frontier.start, hseeds, hamong]
  rw [hwalks]
  refine .guard (.bind (.insertNewIds h.ordered (htarget tables htables .vertex)
    fun _ => .ok (.refl _)) fun _ _ _ => ?_)
  exact .insertNewIds h.ordered (htarget tables htables .edge) fun hR =>
    (Except.Alike.of_eq (h.edgesWithin hR hS _)).mono fun _ _ => .of_eq

end Instructions

/-! ## Metadata -/

section Metadata

variable {env : Environment} {R : Database → Database → Prop} {o : Origin}
  {phase : Phase}

/-- Both runs find the same tables of metadata. -/
def SharesMetadata (env : Environment) (R : Database → Database → Prop) (name : String) : Prop :=
  ∀ tables, env.resolveMetadata name = .ok tables → ∀ e, Database.Shared R (tables.part e)

theorem createEmptyMetadata_alike {target : String}
    (h : env.RemakesHandle R (.metadata target)) :
    Alike R o phase (fun _ _ => True) (env.createEmptyMetadata target)
      (env.createEmptyMetadata target) := by
  unfold createEmptyMetadata
  refine .bind (.sameLookup _) fun tables _ hq => ?_
  obtain ⟨rfl, htables⟩ := hq
  refine .bind (.createTable (h tables htables .vertex) _ _) fun _ _ _ => ?_
  exact .createTable (h tables htables .edge) _ _

theorem overwriteMetadata_alike {target lhs rhs : String} (h : env.SharesMetadata R target)
    (hlhs : env.SharesMetadata R lhs) (hrhs : env.SharesMetadata R rhs) :
    Alike R o phase (fun _ _ => True) (env.overwriteMetadata target lhs rhs)
      (env.overwriteMetadata target lhs rhs) := by
  unfold overwriteMetadata
  refine .bind (.sameLookup _) fun tables _ hq => ?_
  obtain ⟨rfl, htables⟩ := hq
  refine .bind (.sameLookup _) fun lefts _ hq => ?_
  obtain ⟨rfl, hlefts⟩ := hq
  refine .bind (.sameLookup _) fun rights _ hq => ?_
  obtain ⟨rfl, hrights⟩ := hq
  have htable (e : Element) : Alike R o phase (fun _ _ => True)
      (overwriteTable (tables.part e) (lefts.part e) (rights.part e))
      (overwriteTable (tables.part e) (lefts.part e) (rights.part e)) :=
    .overwriteTable (h tables htables e) (hlhs lefts hlefts e) (hrhs rights hrights e)
  exact .bind (htable .vertex) fun _ _ _ => htable .edge

end Metadata
end Environment

/-! ## All instructions -/

open Environment in
/-- Two runs of like instructions go alike if those that name annotation keys do. -/
theorem Instruction.run_alike [RegexLibrary] [Summation]
    {env : Environment} {R : Database → Database → Prop}
    {P : Value → Prop} {T : Element → String → String → Prop}
    {S : Element → Option String → Option String → Prop} {o : Origin}
    {i j : Instruction} (h : env.Reflects R P T S) (hlike : i.Like (env.Counterparts T S) j)
    (htarget : ∀ target, .graph target ∈ i.target? → env.TakesGraph R target)
    (hmakes : i.makes = true → ∀ target ∈ i.target?, env.RemakesHandle R target)
    (hmetadata : ∀ name ∈ i.metadataHandles, env.SharesMetadata R name)
    (hkeys : i.readsKeys = true → Alike R o .idle (· = ·) (i.run env) (j.run env)) :
    Alike R o .idle (· = ·) (i.run env) (j.run env) := by
  cases hlike with
  | @createEmpty target => exact .writing (createEmpty_alike (hmakes rfl (.graph target) rfl))
  | @distinctify target _ _ hg => exact .writing (distinctify_alike h (htarget target rfl) hg)
  | @union target _ _ hg => exact .writing (union_alike h (htarget target rfl) hg)
  | @intersect target _ _ _ _ hg hk => exact .writing (intersect_alike h (htarget target rfl) hg hk)
  | @subtract target _ _ _ _ component hg hk =>
    exact .writing (subtract_alike h (htarget target rfl) hg hk component)
  | @limit target _ _ bound hg => exact .writing (limit_alike h (htarget target rfl) hg bound)
  | @insertGiven e target ids => exact .writing (insertGiven_alike h (htarget target rfl) e ids)
  | @select e target _ _ p hg =>
    cases p with
    | none => exact .writing (selectAll_alike h (htarget target rfl) e hg)
    | some p => exact hkeys rfl
  | selectCarriers hg => exact hkeys rfl
  | matchVertices hg hk => exact hkeys rfl
  | @endpoints target _ _ endpoint hg =>
    exact .writing (endpoints_alike h (htarget target rfl) hg endpoint)
  | @subgraph target _ _ _ _ hg hk => exact .writing (subgraph_alike h (htarget target rfl) hg hk)
  | collapse hg => exact hkeys rfl
  | @adjacent target _ _ _ _ direction hg hk =>
    exact .writing (lineage_alike h (htarget target rfl) hg hk 1 direction)
  | @lineage target _ _ _ _ depth direction hg hk =>
    exact .writing (lineage_alike h (htarget target rfl) hg hk depth direction)
  | @shortestPath target _ _ _ _ _ _ maxDepth hg hk hl =>
    exact .writing (shortestPath_alike h (htarget target rfl) hg hk hl maxDepth)
  | @simplePath target _ _ _ _ _ _ maxDepth hg hk hl =>
    exact .writing (simplePath_alike h (htarget target rfl) hg hk hl maxDepth)
  | @link target _ _ _ _ _ _ maxDepth hg hk hl =>
    exact .writing (link_alike h (htarget target rfl) hg hk hl maxDepth)
  | count hg => exact .bind (count_alike h hg) fun sizes _ hsizes => .pure (by rw [hsizes])
  | statisticSize hg => exact hkeys rfl
  | mean hg => exact hkeys rfl
  | standardDeviation hg => exact hkeys rfl
  | histogram hg => exact hkeys rfl
  | distribution hg => exact hkeys rfl
  | description hg => exact hkeys rfl
  | exportVertices hg => exact hkeys rfl
  | exportEdges hg => exact hkeys rfl
  | @createEmptyMetadata target =>
    exact .writing (createEmptyMetadata_alike (hmakes rfl (.metadata target) rfl))
  | @overwriteMetadata target lhs rhs =>
    exact .writing (overwriteMetadata_alike (hmetadata target (by simp [metadataHandles]))
      (hmetadata lhs (by simp [metadataHandles])) (hmetadata rhs (by simp [metadataHandles])))
  | setMetadata hg => exact .throw _

/-- What an instruction answers. -/
def Environment.outcome [RegexLibrary] [Summation] (env : Environment) (s : Store) (i : Instruction) :
    Except Error Answer :=
  ((i.run env).perform s).1

namespace Environment

variable [RegexLibrary] [Summation] {env : Environment} {s : Store}

theorem outcome_of_wp {m : Program Unit} {i : Instruction} {Q : Unit → Store → Prop}
    (hi : i.run env = Instruction.writing m) (h : m.wp Q s) :
    env.outcome s i = .ok .done ∧ Q () (env.issue s i) := by
  obtain ⟨_, s', hrun, hQ⟩ := h
  rw [outcome, issue, hi, Instruction.writing, perform_bind_of_ok hrun]
  exact ⟨rfl, hQ⟩

theorem outcome_of_refused {m : Program Unit} {i : Instruction} {E : Store → Prop}
    (hi : i.run env = Instruction.writing m) (h : m.ends (fun _ _ => False) E s) :
    env.outcome s i ≠ .ok .done := by
  intro houtcome
  rw [outcome, hi, Instruction.writing] at houtcome
  cases hrun : m.perform s with
  | mk outcome s' =>
    cases outcome with
    | ok a => exact h.ok hrun
    | error e =>
      rw [perform_bind_of_error hrun] at houtcome
      cases houtcome

/-- What a refused instruction leaves. -/
theorem issue_of_refused {m : Program Unit} {i : Instruction} {E : Store → Prop}
    (hi : i.run env = Instruction.writing m) (h : m.ends (fun _ _ => False) E s) :
    E (env.issue s i) := by
  rw [issue, hi, Instruction.writing]
  cases hrun : m.perform s with
  | mk outcome s' =>
    cases outcome with
    | ok a => exact (h.ok hrun).elim
    | error e =>
      rw [perform_bind_of_error hrun]
      exact h.error hrun

end Environment
end Provenance
