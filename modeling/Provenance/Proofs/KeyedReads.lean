-- SUMMARY: Two runs that read the same annotations under their keys.
import Provenance.Proofs.Parallel

/-!
# Reading the same annotations

Where both runs find the same annotation tables and restrict their rows alike, also the instructions
that name annotation keys go alike. A restriction is a part of a statement, so a search in very many
columns may be refused with it and accepted without; and the description of the base graph is not that
of a graph which holds everything. Both are excluded where the restrictions differ.
-/
namespace Provenance

open Program

/-- The predicates of the instruction can be put to the columns of the annotation tables even within a
restriction. -/
def Instruction.WithinDepth (env : Environment) (db : Database) : Instruction → Prop
  | select e _ _ (some p) => ∀ t, db.find? (env.schema.annotationTable e) = some t →
      Sql.restrictedDepth (Sql.anyDepth env.schema (p.columnsIn t.names)) ≤ Sql.depthLimit
  | _ => True

namespace Environment

/-! ## Statistics of the values that are present -/

section Statistics

variable {env : Environment} {R : Database → Database → Prop} {o : Origin}
  {phase : Phase} {g g' : GraphRef} {e : Element} {key : String}

variable (h : Alike R o phase (· = ·) (env.presentValues g e key)
  (env.presentValues g' e key))

include h

theorem statisticSize_alike :
    Alike R o phase (· = ·) (env.statisticSize g e key) (env.statisticSize g' e key) :=
  .bind h fun _ _ hvs => .pure (congrArg _ hvs)

theorem presentNumbers_alike :
    Alike R o phase (· = ·) (env.presentNumbers g e key) (env.presentNumbers g' e key) :=
  .bind h fun _ _ hvs => .pure (congrArg _ hvs)

theorem mean_alike [Summation] :
    Alike R o phase (· = ·) (env.mean g e key) (env.mean g' e key) :=
  .bind (presentNumbers_alike h) fun _ _ hnumbers => .pure (congrArg _ hnumbers)

theorem standardDeviation_alike [Summation] :
    Alike R o phase (· = ·) (env.standardDeviation g e key)
      (env.standardDeviation g' e key) := by
  refine .bind (presentNumbers_alike h) fun numbers _ hnumbers => ?_
  subst hnumbers
  cases Number.deviation numbers with
  | ok x => exact .pure rfl
  | error e => exact .throw e

theorem distribution_alike (bins : Int) :
    Alike R o phase (· = ·) (env.distribution g e key bins)
      (env.distribution g' e key bins) := by
  unfold distribution
  refine .guard (.bind (presentNumbers_alike h) fun numbers _ hnumbers => ?_)
  subst hnumbers
  exact .ite (fun _ => .pure rfl) fun _ => .guard (.pure rfl)

omit h in
/-- The cells count only if one of them holds something. -/
theorem histogram_alike {C : Prop}
    (h : Alike R o phase (fun vs vs' => vs = vs' ∧ (vs ≠ [] → C))
      (env.presentValues g e key) (env.presentValues g' e key))
    (hcells : C → Alike R o phase (· = ·)
      (do
        let table? ← env.restriction? g e
        Program.query fun db => return Histogram.ofValues (← env.cellsInScope db e table? key))
      (do
        let table? ← env.restriction? g' e
        Program.query fun db => return Histogram.ofValues (← env.cellsInScope db e table? key))) :
    Alike R o phase (· = ·) (env.histogram g e key) (env.histogram g' e key) := by
  have hsize : Alike R o phase (fun n n' => n = n' ∧ (n ≠ 0 → C))
      (env.statisticSize g e key) (env.statisticSize g' e key) := by
    refine .bind h fun vs vs' hvs => .pure ⟨congrArg _ hvs.1, fun hne => hvs.2 ?_⟩
    rintro rfl
    exact hne rfl
  unfold histogram
  refine .bind hsize fun n _ hn => ?_
  obtain ⟨rfl, hC⟩ := hn
  exact .ite (fun _ => .pure rfl) fun hne => hcells (hC hne)

end Statistics

/-! ## Vertices that carry keys -/

section Carriers

variable {env : Environment} {R : Database → Database → Prop} {P : Value → Prop}
  {T : Element → String → String → Prop} {S : Element → Option String → Option String → Prop}
  {o : Origin} {phase : Phase} {target g g' k k' : GraphRef} {keys : List String}

/-- The same statement, if any, gives the same ids in both. -/
def SameStatement (R : Database → Database → Prop) :
    Option (Database → Except Error (List Value)) → Option (Database → Except Error (List Value)) →
      Prop :=
  Option.Rel fun ids ids' => ∀ {db db'}, R db db' → ids db = ids' db'

variable (hcarriers : ∀ {phase table table'}, T .vertex table table' →
  Alike R o phase (SameStatement R) (env.carriers table keys) (env.carriers table' keys))

include hcarriers

theorem selectCarriers_alike (htarget : env.TakesGraph R target) (hg : env.Counterparts T S g g') :
    Alike R o phase (fun _ _ => True) (env.selectCarriers target g keys)
      (env.selectCarriers target g' keys) := by
  unfold selectCarriers
  refine .bind (.sameLookup _) fun tables _ hq => ?_
  obtain ⟨rfl, htables⟩ := hq
  refine .bind (.lookup hg.tables) fun _ _ hT => ?_
  refine .bind (hcarriers (hT .vertex)) fun found found' hfound => ?_
  cases hfound with
  | none => exact .pure trivial
  | some hids => exact .insertIds (htarget tables htables .vertex) hids

theorem matchVertices_alike (hP : Value.Ordered P)
    (hagreeing : ∀ {db db'}, R db db' → ∀ left right,
      env.agreeing db left right keys = env.agreeing db' left right keys)
    (htarget : env.TakesGraph R target) (hg : env.Counterparts T S g g')
    (hk : env.Counterparts T S k k') :
    Alike R o .idle (fun _ _ => True) (env.matchVertices target g k keys)
      (env.matchVertices target g' k' keys) := by
  unfold matchVertices
  refine .bind (.sameLookup _) fun _ _ _ => .withScratch fun request request' => ?_
  refine .bind (.createScratch _) fun _ _ _ => .bind (.createScratch _) fun _ _ _ => ?_
  refine .bind (.lookup hg.tables) fun _ _ hT => ?_
  refine .bind (hcarriers (hT .vertex)) fun found found' hfound => ?_
  cases hfound with
  | none => exact .pure trivial
  | some hids =>
    refine .bind (.query fun _ _ hR => .of_eq (hids hR)) fun left _ hleft => ?_
    subst hleft
    refine .bind (.lookup hk.tables) fun _ _ hT' => ?_
    refine .bind (hcarriers (hT' .vertex)) fun found found' hfound => ?_
    have hmatched (right : Cells) : Alike R o (.busy request request') (fun _ _ => True)
        (do
          Program.createScratch request "pairs"
          Program.createScratch request "matched"
          let pairs ← Program.query fun db =>
            env.agreeing db (env.schema.scratchIds left) right keys
          let target ← env.writable target
          env.schema.insertNewIds target.vertices fun _ =>
            return env.schema.scratchIds (pairs.map (·.1) ++ pairs.map (·.2)))
        (do
          Program.createScratch request' "pairs"
          Program.createScratch request' "matched"
          let pairs ← Program.query fun db =>
            env.agreeing db (env.schema.scratchIds left) right keys
          let target ← env.writable target
          env.schema.insertNewIds target.vertices fun _ =>
            return env.schema.scratchIds (pairs.map (·.1) ++ pairs.map (·.2))) := by
      refine .bind (.createScratch _) fun _ _ _ => .bind (.createScratch _) fun _ _ _ => ?_
      refine .bind (.query fun _ _ hR => .of_eq (hagreeing hR _ _)) fun pairs _ hpairs => ?_
      subst hpairs
      refine .bind (.sameLookup _) fun tables _ hq => ?_
      obtain ⟨rfl, htables⟩ := hq
      exact .insertNewIds hP (htarget tables htables .vertex) fun _ => .ok (.refl _)
    cases hfound with
    | none => exact hmatched _
    | some hids' =>
      refine .bind (.query fun _ _ hR => .of_eq (hids' hR)) fun right _ hright => ?_
      subst hright
      exact hmatched _

end Carriers

/-- Both runs find the same annotation table of an element, with columns as `C` says, and restrict its rows
alike. -/
structure SameAnnotations (env : Environment) (R : Database → Database → Prop)
    (T : String → String → Prop) (S : Option String → Option String → Prop) (e : Element)
    (C : List String → Prop) : Prop where
  part : ∀ {table table'}, T table table' → S (some table) (some table')
  find? : ∀ {db db'}, R db db' →
    db.find? (env.schema.annotationTable e) = db'.find? (env.schema.annotationTable e)
  columns : ∀ {db db' t}, R db db' → db.find? (env.schema.annotationTable e) = some t → C t.names
  restrict : ∀ {db db' table? table?' t rows}, R db db' → S table? table?' →
    db.find? (env.schema.annotationTable e) = some t → rows ⊆ t.rows →
    env.restrict db { t with rows } table? = env.restrict db' { t with rows } table?'

section Reads

variable {env : Environment} {R : Database → Database → Prop} {P : Value → Prop}
  {T : Element → String → String → Prop} {S : Element → Option String → Option String → Prop}
  {e : Element} {C : List String → Prop} {o : Origin} {phase : Phase} {db db' : Database}
  {table? table?' : Option String} {target g g' k k' : GraphRef}

namespace SameAnnotations

section

variable (h : env.SameAnnotations R (T e) (S e) e C)

include h

theorem table_eq (hR : R db db') :
    db.table (env.schema.annotationTable e) = db'.table (env.schema.annotationTable e) := by
  simp only [Database.table, h.find? hR]

theorem tableWith_eq (hR : R db db') (columns : List String) :
    db.tableWith (env.schema.annotationTable e) columns =
      db'.tableWith (env.schema.annotationTable e) columns := by
  simp only [Database.tableWith, h.table_eq hR]

theorem restrict_eq (hR : R db db') (hS : S e table? table?') {columns : List String} {t : Table}
    (ht : db.tableWith (env.schema.annotationTable e) columns = .ok t) {rows : List Row}
    (hrows : rows ⊆ t.rows) :
    env.restrict db { t with rows } table? = env.restrict db' { t with rows } table?' :=
  h.restrict hR hS (Database.tableWith_eq_ok ht).1 hrows

theorem rowsInScope_eq (hR : R db db') (hS : S e table? table?') (columns : List String) :
    env.rowsInScope db e table? columns = env.rowsInScope db' e table?' columns := by
  apply Except.Alike.eq
  refine .bind (.of_eq (h.tableWith_eq hR columns)) fun t _ ht _ heq => .of_eq ?_
  subst heq
  exact h.restrict_eq hR hS ht fun _ => id

theorem cellsInScope_eq (hR : R db db') (hS : S e table? table?') (key : String) :
    env.cellsInScope db e table? key = env.cellsInScope db' e table?' key := by
  simp only [cellsInScope, h.rowsInScope_eq hR hS]

/-- A restriction that only one of the two statements has must not be the one level too many. -/
theorem idsMatching_eq [RegexLibrary] (hR : R db db') (hS : S e table? table?') {p : Predicate}
    {columns : List String}
    (hdepth : table?.isSome = table?'.isSome ∨
      Sql.restrictedDepth (Sql.anyDepth env.schema columns) ≤ Sql.depthLimit) :
    env.idsMatching db e table? p columns = env.idsMatching db' e table?' p columns := by
  apply Except.Alike.eq
  refine .guard ?_ fun _ => ?_
  · rcases hdepth with hsome | hdepth
    · rw [hsome]
    · have hle : Sql.anyDepth env.schema columns ≤
          Sql.restrictedDepth (Sql.anyDepth env.schema columns) :=
        Nat.le_add_right_of_le (Nat.le_max_left _ _)
      have hfits (restricted : Bool) :
          ¬ Sql.depthLimit < if restricted then Sql.restrictedDepth (Sql.anyDepth env.schema columns)
            else Sql.anyDepth env.schema columns := by
        cases restricted with
        | true => exact Nat.not_lt.mpr hdepth
        | false => exact Nat.not_lt.mpr (hle.trans hdepth)
      exact iff_of_false (hfits _) (hfits _)
  refine .bind (.of_eq (h.tableWith_eq hR _)) fun t _ ht _ heq => ?_
  subst heq
  have hrest {rows : List Row} (hrows : rows ⊆ t.rows) : Except.Alike (· = ·)
      (do return (← env.restrict db { t with rows } table?).map (·.get env.schema.idColumn))
      (do return (← env.restrict db' { t with rows } table?').map (·.get env.schema.idColumn)) := by
    rw [h.restrict_eq hR hS ht hrows]
    exact .of_eq rfl
  split
  · exact hrest fun _ => id
  · refine .bind (.of_eq rfl) fun rows _ hrows _ heq => ?_
    subst heq
    exact hrest (p.filterRows_subset hrows)

/-! ## Programs -/

theorem annotationColumns_alike :
    Alike R o phase (fun names names' => names = names' ∧ C names) (env.annotationColumns e)
      (env.annotationColumns e) := by
  refine .query fun db db' hR => .bind (.of_eq (h.table_eq hR)) fun t _ ht _ heq => ?_
  subst heq
  have hfind : db.find? (env.schema.annotationTable e) = some t :=
    (Database.tableWith_eq_ok (show db.tableWith (env.schema.annotationTable e) [] = .ok t by
      simp [Database.tableWith, ht])).1
  exact .ok ⟨rfl, h.columns hR hfind⟩

theorem select_alike [RegexLibrary]
    (htarget : env.TakesGraph R target) (hg : env.Counterparts T S g g')
    {p : Predicate}
    (hdepth : (∀ table? table?', S e table? table?' → table?.isSome = table?'.isSome) ∨
      ∀ names, C names →
        Sql.restrictedDepth (Sql.anyDepth env.schema (p.columnsIn names)) ≤ Sql.depthLimit) :
    Alike R o phase (fun _ _ => True) (env.select e target g (some p))
      (env.select e target g' (some p)) := by
  unfold select
  refine .bind (.sameLookup _) fun tables _ hq => ?_
  obtain ⟨rfl, htables⟩ := hq
  refine .bind (.lookup hg.tables) fun _ _ _ => ?_
  refine .bind (.lookup (hg.restriction e)) fun table? table?' hS => ?_
  refine .bind h.annotationColumns_alike fun names _ hnames => ?_
  obtain ⟨rfl, hnames⟩ := hnames
  refine .ite (fun _ => .pure trivial) fun _ => ?_
  refine .insertIds (htarget tables htables e) fun hR => ?_
  rw [h.idsMatching_eq hR hS (hdepth.imp (fun hS' => hS' _ _ hS) fun hfits => hfits names hnames)]

theorem presentValues_alike (hg : env.Counterparts T S g g') (key : String) :
    Alike R o phase (· = ·) (env.presentValues g e key) (env.presentValues g' e key) := by
  unfold presentValues
  refine .bind h.annotationColumns_alike fun names _ hnames => ?_
  obtain ⟨rfl, _⟩ := hnames
  refine .ite (fun _ => .pure rfl) fun _ => ?_
  refine .bind (.lookup (hg.restriction e)) fun _ _ hS => .query fun _ _ hR => .of_eq ?_
  rw [h.cellsInScope_eq hR hS]

theorem histogram_alike (hg : env.Counterparts T S g g') (key : String) :
    Alike R o phase (· = ·) (env.histogram g e key) (env.histogram g' e key) := by
  refine Environment.histogram_alike (C := True) ((h.presentValues_alike hg key).mono
    fun _ _ hvs => ⟨hvs, fun _ => trivial⟩) fun _ => ?_
  refine .bind (.lookup (hg.restriction e)) fun _ _ hS => .query fun _ _ hR => .of_eq ?_
  rw [h.cellsInScope_eq hR hS]

theorem exported_alike (hg : env.Counterparts T S g g') :
    Alike R o phase (· = ·) (env.exported g e) (env.exported g' e) := by
  unfold exported
  refine .bind (.lookup (hg.restriction e)) fun _ _ hS => .query fun db db' hR => ?_
  refine .bind (.of_eq (h.table_eq hR)) fun t _ ht _ heq => ?_
  subst heq
  have htable : db.tableWith (env.schema.annotationTable e) [] = .ok t := by
    simp [Database.tableWith, ht]
  exact .of_eq (by rw [h.restrict_eq hR hS htable fun _ => id])

theorem describedKeys_alike (hg : env.Counterparts T S g g') (keys : List String) :
    Alike R o phase (· = ·) (env.describedKeys g e keys) (env.describedKeys g' e keys) := by
  unfold describedKeys
  refine .bind (.lookup (hg.restriction e)) fun _ _ hS => .filterM fun key _ => ?_
  refine .query fun _ _ hR => .of_eq ?_
  rw [h.cellsInScope_eq hR hS]

end

/-! ## Vertices -/

section

variable (h : env.SameAnnotations R (T .vertex) (S .vertex) .vertex C)

include h

theorem exportVertices_alike (hg : env.Counterparts T S g g') :
    Alike R o phase (· = ·) (env.exportVertices g) (env.exportVertices g') := by
  refine .bind (h.exported_alike hg) fun t _ ht => ?_
  subst ht
  exact .bind (.lookup (.of_eq rfl)) fun _ _ _ => .pure rfl

theorem agreeing_eq (hR : R db db') (left right : Cells) (keys : List String) :
    env.agreeing db left right keys = env.agreeing db' left right keys := by
  apply Except.Alike.eq
  refine .guard Iff.rfl fun _ => .bind (.of_eq (h.tableWith_eq hR _)) fun t _ _ _ heq => ?_
  subst heq
  exact .ok rfl

theorem carriers_alike {table table' : String} (hT : T .vertex table table') (keys : List String) :
    Alike R o phase (SameStatement R) (env.carriers table keys) (env.carriers table' keys) := by
  unfold carriers
  refine .guard (.bind h.annotationColumns_alike fun names _ hnames => ?_)
  obtain ⟨rfl, _⟩ := hnames
  refine .ite (fun _ => .pure .none) fun _ => .pure (.some fun hR => ?_)
  simp only [h.rowsInScope_eq hR (h.part hT)]

end

/-! ## Edges -/

section

variable (h : env.SameAnnotations R (T .edge) (S .edge) .edge C)

include h

theorem exportEdges_alike (hg : env.Counterparts T S g g') :
    Alike R o phase (· = ·) (env.exportEdges g) (env.exportEdges g') := by
  refine .bind (h.exported_alike hg) fun t _ ht => ?_
  subst ht
  exact .bind (.lookup (.of_eq rfl)) fun _ _ _ => .pure rfl

theorem arcs_eq (hR : R db db') (hS : S .edge table? table?') :
    env.arcs db table? = env.arcs db' table?' := by
  simp only [arcs, h.rowsInScope_eq hR hS]

theorem endpointsIn_eq {table table' : String} (hR : R db db') (hT : T .edge table table')
    (column : String) : env.endpointsIn db table column = env.endpointsIn db' table' column := by
  apply Except.Alike.eq
  refine .bind (.of_eq (h.tableWith_eq hR [column])) fun t _ ht _ heq => ?_
  subst heq
  refine .bind (.of_eq (h.restrict_eq hR (h.part hT) ht fun _ => id)) fun rows _ _ _ hrows => ?_
  subst hrows
  exact .ok rfl

theorem collapse_alike (hreflects : env.Reflects R P T S) (htarget : env.TakesGraph R target)
    (hg : env.Counterparts T S g g') (fields : List String) :
    Alike R o phase (fun _ _ => True) (env.collapse target g fields)
      (env.collapse target g' fields) := by
  unfold collapse
  refine .bind (.sameLookup _) fun tables _ hq => ?_
  obtain ⟨rfl, htables⟩ := hq
  refine .bind h.annotationColumns_alike fun names _ hnames => ?_
  obtain ⟨rfl, _⟩ := hnames
  refine .bind (.lookup hg.tables) fun sources sources' hT => ?_
  refine .bind (.insertIds (htarget tables htables .vertex) fun hR => ?_) fun _ _ _ => ?_
  · exact hreflects.groups_eq hR (hT .vertex)
  · refine .insertIds (htarget tables htables .edge) fun hR => ?_
    have hS : S .edge (some sources.edges) (some sources'.edges) := h.part (hT .edge)
    simp only [h.rowsInScope_eq hR hS]

end
end SameAnnotations

section

variable {C : Element → List String → Prop} (h : ∀ e, env.SameAnnotations R (T e) (S e) e (C e))

include h

/-- The description of one graph. -/
theorem description_alike (hg : env.Counterparts T S g g) :
    Alike R o phase (· = ·) (env.description g) (env.description g) := by
  unfold description
  refine .bind (h .vertex).annotationColumns_alike fun names _ hnames => ?_
  obtain ⟨rfl, _⟩ := hnames
  refine .bind (h .edge).annotationColumns_alike fun names' _ hnames' => ?_
  obtain ⟨rfl, _⟩ := hnames'
  cases g with
  | base => exact .pure rfl
  | named name =>
    refine .bind ((h .vertex).describedKeys_alike hg _) fun keys _ hkeys => ?_
    subst hkeys
    refine .bind ((h .edge).describedKeys_alike hg _) fun keys' _ hkeys' => ?_
    subst hkeys'
    exact .pure rfl

/-- What counterpart tables of ids are, and that the ids are told apart, is all that has to be known
besides. -/
theorem reflects_of_sameAnnotations (hwhole : S .edge none none) (hordered : Value.Ordered P)
    (hstored : ∀ v, P v → env.schema.idAffinity.store v = v)
    (hids : ∀ {db db' e table table'}, R db db' → T e table table' →
      Except.Alike (Cells.SameIds P) (env.schema.ids db table) (env.schema.ids db' table'))
    (hsize : ∀ {db db' e table table'}, R db db' → T e table table' →
      Except.Alike (fun t t' => t.rows.length = t'.rows.length) (db.table table) (db'.table table'))
    (hends : ∀ {db db' table column cells}, R db db' → column ∈ env.endpointColumns .both →
      env.endpointsIn db table column = .ok cells →
      ∀ v w, P w → v ∈ cells.values → v ≠ .null → P v) :
    env.Reflects R P T S where
  ordered := hordered
  stored := hstored
  whole := hwhole
  ids := hids
  size := hsize
  annotated e hR := Schema.ids_congr ((h e).find? hR)
  arcs := (h .edge).arcs_eq
  ends hR hT hcolumn := by
    rw [← (h .edge).endpointsIn_eq hR hT]
    cases hcells : env.endpointsIn _ _ _ with
    | ok cells => exact .ok ⟨rfl, hends hR hcolumn hcells⟩
    | error e => exact .error e

end
end Reads
end Environment

open Environment in
/-- Two runs of like instructions on the same annotations go alike. -/
theorem Instruction.run_alike_of_sameAnnotations [RegexLibrary] [Summation] {env : Environment}
    {R : Database → Database → Prop} {P : Value → Prop} {T : Element → String → String → Prop}
    {S : Element → Option String → Option String → Prop} {C : Element → List String → Prop}
    {o : Origin} {i j : Instruction} (h : ∀ e, env.SameAnnotations R (T e) (S e) e (C e))
    (hreflects : env.Reflects R P T S) (hlike : i.Like (env.Counterparts T S) j)
    (htarget : ∀ target, .graph target ∈ i.target? → env.TakesGraph R target)
    (hmakes : i.makes = true → ∀ target ∈ i.target?, env.RemakesHandle R target)
    (hmetadata : ∀ name ∈ i.metadataHandles, env.SharesMetadata R name)
    (hdepth : (∀ e table? table?', S e table? table?' → table?.isSome = table?'.isSome) ∨
      ∀ e target g p, i = .select e target g (some p) → ∀ names, C e names →
        Sql.restrictedDepth (Sql.anyDepth env.schema (p.columnsIn names)) ≤ Sql.depthLimit)
    (hdescription : ∀ g, i = .description g → j = i) :
    Alike R o .idle (· = ·) (i.run env) (j.run env) := by
  refine run_alike hreflects hlike htarget hmakes hmetadata fun hreads => ?_
  have hanswering {α β : Type} {m m' : Program α} {f : α → β}
      (h : Alike R o .idle (· = ·) m m') :
      Alike R o .idle (· = ·) (do return f (← m)) (do return f (← m')) :=
    .bind h fun _ _ heq => .pure (congrArg f heq)
  cases hlike with
  | @select e target _ _ p hg =>
    cases p with
    | none => cases hreads
    | some p =>
      exact .writing ((h e).select_alike (htarget target rfl) hg
        (hdepth.imp (fun hS => hS e) fun hfits => hfits e target _ p rfl))
  | @selectCarriers target _ _ keys hg =>
    exact .writing (Environment.selectCarriers_alike
      (fun hT => (h .vertex).carriers_alike hT keys) (htarget target rfl) hg)
  | @matchVertices target _ _ _ _ keys hg hk =>
    exact .writing (Environment.matchVertices_alike
      (fun hT => (h .vertex).carriers_alike hT keys) hreflects.ordered
      (fun hR left right => (h .vertex).agreeing_eq hR left right keys) (htarget target rfl) hg hk)
  | @collapse target _ _ fields hg =>
    exact .writing ((h .edge).collapse_alike hreflects (htarget target rfl) hg fields)
  | @statisticSize _ _ e key hg =>
    exact hanswering (statisticSize_alike ((h e).presentValues_alike hg key))
  | @mean _ _ e key hg => exact hanswering (mean_alike ((h e).presentValues_alike hg key))
  | @standardDeviation _ _ e key hg =>
    exact hanswering (standardDeviation_alike ((h e).presentValues_alike hg key))
  | @histogram _ _ e key hg => exact hanswering ((h e).histogram_alike hg key)
  | @distribution _ _ e key bins hg =>
    exact hanswering (distribution_alike ((h e).presentValues_alike hg key) bins)
  | @description g _ hg =>
    obtain rfl := Instruction.description.inj (hdescription g rfl)
    exact hanswering (f := fun keys => Answer.keys keys.1 keys.2) (description_alike h hg)
  | exportVertices hg => exact hanswering ((h .vertex).exportVertices_alike hg)
  | exportEdges hg => exact hanswering ((h .edge).exportEdges_alike hg)
  | _ => cases hreads

end Provenance
