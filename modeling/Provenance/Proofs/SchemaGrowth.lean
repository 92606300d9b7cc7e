-- SUMMARY: Instructions before and after annotations get a key that no element has a value for.
import Provenance.Proofs.BaseCopy
import Provenance.Proofs.GrownRuns

/-!
# Growth of the schema

When the annotations of vertices or of edges get a new key that no element has a value for, then almost
no instruction shows it: an unknown key, which an instruction passes over, is as good as a column of
nulls, which statements look at in vain. The exceptions are the description of the base graph, which
counts all keys, and the test for difference under the new key, which every element passes without a
column and none with one. Also, what is passed over is not checked. So an instruction that names the
key has to be about graphs that there are, and no statement may grow beyond the limits of the engine.
-/
namespace Provenance

open Program Store

namespace Instruction

/-- The instruction names the key among the annotations of an element. A wildcard names no key. -/
def NamesKey (schema : Schema) (e : Element) (key : String) : Instruction → Prop
  | select e' _ _ (some p) => schema.OneTable e e' ∧ p.isWildcard = false ∧ p.key = key
  | selectCarriers _ _ keys => schema.OneTable e .vertex ∧ key ∈ keys
  | matchVertices _ _ _ keys => schema.OneTable e .vertex ∧ key ∈ keys
  | statisticSize _ e' key' => schema.OneTable e e' ∧ key' = key
  | mean _ e' key' => schema.OneTable e e' ∧ key' = key
  | standardDeviation _ e' key' => schema.OneTable e e' ∧ key' = key
  | histogram _ e' key' => schema.OneTable e e' ∧ key' = key
  | distribution _ e' key' _ => schema.OneTable e e' ∧ key' = key
  | _ => False

/-- The instruction shows that there is a column for the key. -/
def ShowsColumn (schema : Schema) (e : Element) (key : String) : Instruction → Prop
  | description .base => True
  | select e' _ _ (some p) => schema.OneTable e e' ∧ p.isWildcard = false ∧ p.key = key ∧
    p.operator = .notEqual
  | _ => False

/-- The statements about the annotations of an element are within the limits of the engine after the
names of the columns have become more, if they were so before. Those that name the key are statements
only then. -/
def StillFits (schema : Schema) (e : Element) (key : String) (names names' : List String) :
    Instruction → Prop
  | select e' _ g (some p) => schema.OneTable e e' →
    (p.isWildcard = true → Sql.selectDepth schema g names ≤ Sql.depthLimit →
      Sql.selectDepth schema g names' ≤ Sql.depthLimit) ∧
    (p.isWildcard = false → p.key = key → p.operator = .like →
      p.value.utf8ByteSize ≤ Sql.patternLimit)
  | selectCarriers _ _ keys => schema.OneTable e .vertex → key ∈ keys → keys ⊆ names' →
    Sql.presenceDepth keys.length ≤ Sql.depthLimit
  | matchVertices _ _ _ keys => schema.OneTable e .vertex → key ∈ keys → keys ⊆ names' →
    Sql.presenceDepth keys.length ≤ Sql.depthLimit ∧
      Sql.agreementDepth schema keys ≤ Sql.depthLimit
  | collapse _ _ fields => schema.OneTable e .edge →
    2 + (fields.filter names.contains).length ≤ Sql.columnLimit →
      2 + (fields.filter names'.contains).length ≤ Sql.columnLimit
  | _ => True

/-- The instruction asks for the key in the annotations, once there is a column for it. -/
def AsksForKey (schema : Schema) (e : Element) (key : String) (i : Instruction) : Prop :=
  i.NamesKey schema e key ∨ ∃ g, i = description g

/-- The graphs that are not looked up before there is a column to look into. -/
def lateSources : Instruction → List GraphRef
  | matchVertices _ lhs rhs _ => [lhs, rhs]
  | statisticSize g _ _ => [g]
  | mean g _ _ => [g]
  | standardDeviation g _ _ => [g]
  | histogram g _ _ => [g]
  | distribution g _ _ _ => [g]
  | _ => []

end Instruction

namespace Environment

variable {env : Environment} {e e' : Element} {key : String} {columns columns' : List Column}
  {i : Instruction} {s : Store} {db db' : Database} {g : GraphRef}

/-- If the graph is registered, then it has its tables of ids. -/
def Tabled (env : Environment) (db : Database) (g : GraphRef) : Prop :=
  ∀ tables, env.resolve g = .ok tables → ∀ e, ∃ t, db.find? (tables.part e) = some t ∧
    t.has env.schema.idColumn = true

theorem Tabled.readable {tables : TablePair} (h : env.Tabled db g) (hg : env.resolve g = .ok tables) :
    env.Readable db g := ⟨tables, hg, h tables hg⟩

theorem Readable.tabled (h : env.Readable db g) : env.Tabled db g := by
  obtain ⟨tables, htables, hids⟩ := h
  intro tables' htables'
  obtain rfl : tables = tables' := Except.ok.inj (htables.symm.trans htables')
  exact hids

/-! ## Blank keys -/

section

variable (h : env.GetsKey e key columns columns') (hR : env.Grown e key columns columns' db db')

include h hR

/-- Before, there is no such column. -/
theorem Grown.blank (hone : env.schema.OneTable e e') : env.Blank db e' key := by
  intro t ht hhas
  obtain ⟨t₀, _, ht₀, _, hgrown⟩ := hR.find?_of_folded hone
  obtain rfl : t = t₀ := Option.some.inj (ht.symm.trans ht₀)
  rw [Table.has, List.contains_iff_mem, Table.names, hgrown.columns] at hhas
  exact absurd hhas h.added.fresh

omit h in
/-- After, it is null everywhere. -/
theorem Grown.blank' (hone : env.schema.OneTable e e') : env.Blank db' e' key := by
  intro t ht _ r hr
  obtain ⟨_, t₀, _, ht₀, hgrown⟩ := hR.find?_of_folded hone
  obtain rfl : t = t₀ := Option.some.inj (ht.symm.trans ht₀)
  exact Row.Grown.blank_of_mem hgrown.rows r hr

/-- Tables of ids are tables of ids also after. -/
theorem Grown.exists_ids {name : String}
    (hids : ∃ t, db.find? name = some t ∧ t.has env.schema.idColumn = true) :
    ∃ t, db'.find? name = some t ∧ t.has env.schema.idColumn = true := by
  obtain ⟨t, ht, hhas⟩ := hids
  by_cases hname : Name.folded name = Name.folded (env.schema.annotationTable e)
  · obtain ⟨t₀, t', ht₀, ht', hgrown⟩ := hR.find?_of_folded hname
    obtain rfl : t = t₀ := Option.some.inj (ht.symm.trans ht₀)
    exact ⟨t', ht', (hgrown.has_eq h.added h.idColumn_ne).trans hhas⟩
  · exact ⟨t, (hR.others _ hname).symm.trans ht, hhas⟩

theorem Grown.readable (hg : env.Readable db g) : env.Readable db' g := by
  obtain ⟨tables, htables, hids⟩ := hg
  exact ⟨tables, htables, fun e' => hR.exists_ids h (hids e')⟩

theorem Grown.tabled (hg : env.Tabled db g) : env.Tabled db' g :=
  fun tables htables e' => hR.exists_ids h (hg tables htables e')

end

/-! ## Instructions that do not name the key -/

/-- The tables of a target are made anew in both. -/
theorem run_alike_of_makes [RegexLibrary] [Summation]
    (hmakes : i.makes = true) (e : Element) (key : String)
    (columns columns' : List Column) (o : Origin) :
    Program.Alike (Database.GrownOrMade (env.schema.annotationTable e) key columns columns') o .idle
      (· = ·) (i.run env) (i.run env) := by
  have hremade {tables : TablePair} (e' : Element) := Database.remade_grownOrMade
    (env.schema.annotationTable e) key columns columns' (tables.part e')
  cases i with
  | createEmpty target => exact .writing (createEmpty_alike fun _ _ => hremade)
  | createEmptyMetadata target => exact .writing (createEmptyMetadata_alike fun _ _ => hremade)
  | _ => cases hmakes

/-- Only the statements of wildcards get deeper. -/
theorem selectDepth_le_of_added (h : Column.Added key columns columns') {p : Predicate}
    (hp : p.isWildcard = true ∨ p.key ≠ key)
    (hfits : p.isWildcard = true →
      Sql.selectDepth env.schema g (columns.map (·.name)) ≤ Sql.depthLimit →
        Sql.selectDepth env.schema g (columns'.map (·.name)) ≤ Sql.depthLimit)
    (hdepth : Sql.selectDepth env.schema g (p.columnsIn (columns.map (·.name))) ≤ Sql.depthLimit) :
    Sql.selectDepth env.schema g (p.columnsIn (columns'.map (·.name))) ≤ Sql.depthLimit := by
  unfold Predicate.columnsIn at *
  by_cases hwildcard : p.isWildcard = true
  · rw [if_pos hwildcard] at *
    exact hfits hwildcard hdepth
  · rw [if_neg hwildcard] at *
    have hkey : decide (key = p.key) = false := decide_eq_false (hp.resolve_left hwildcard).symm
    rwa [h.filter_eq hkey]

/-- What does not ask for the key does the same with the new column. -/
theorem run_alike_of_grown [RegexLibrary] [Summation]
    (h : env.GetsKey e key columns columns') (hmakes : i.makes = false)
    (hasks : ¬ i.AsksForKey env.schema e key)
    (hfits : i.StillFits env.schema e key (columns.map (·.name)) (columns'.map (·.name)))
    (hmetadata : ∀ name ∈ i.metadataHandles, ∀ tables e', env.resolveMetadata name = .ok tables →
      Name.folded (tables.part e') ≠ Name.folded (env.schema.annotationTable e)) (o : Origin) :
    Program.Alike (env.Grown e key columns columns') o .idle (· = ·) (i.run env) (i.run env) := by
  have hreflects := reflects_of_grown h
  have htakes (target : GraphRef) : env.TakesGraph (env.Grown e key columns columns') target :=
    fun tables _ e' => takes_of_grown h (tables.part e')
  have hself := env.counterparts_refl
  have hanswering {α β : Type} {m m' : Program α} {f : α → β}
      (h : Program.Alike (env.Grown e key columns columns') o .idle (· = ·) m m') :
      Program.Alike (env.Grown e key columns columns') o .idle (· = ·) (do return f (← m))
        (do return f (← m')) :=
    .bind h fun _ _ heq => .pure (congrArg f heq)
  refine Instruction.run_alike hreflects (.refl fun g _ => hself g) (fun target _ => htakes target)
    (fun h => by rw [hmakes] at h; cases h)
    (fun name hname tables htables e' => shared_of_grown (hmetadata name hname tables e' htables))
    fun hreads => ?_
  have hnames : ¬ i.NamesKey env.schema e key := fun hn => hasks (.inl hn)
  cases i with
  | select e' target g p =>
    cases p with
    | none => cases hreads
    | some p =>
      have hp (hone : env.schema.OneTable e e') : p.isWildcard = true ∨ p.key ≠ key := by
        by_contra hp
        rw [not_or, Bool.not_eq_true, not_not] at hp
        exact hnames ⟨hone, hp⟩
      exact .writing (select_alike_of_getsKey h id (htakes target) hp fun hone =>
        selectDepth_le_of_added h.added (hp hone) (hfits hone).1)
  | selectCarriers target g keys =>
    refine .writing (selectCarriers_alike (T := SameName) (fun hT => ?_) (htakes target) (hself g))
    subst hT
    exact carriers_alike_of_getsKey h id hnames _
  | matchVertices target lhs rhs keys =>
    refine .writing (matchVertices_alike (T := SameName) (fun hT => ?_) hreflects.ordered
      (agreeing_eq_of_getsKey h id hnames) (htakes target) (hself lhs) (hself rhs))
    subst hT
    exact carriers_alike_of_getsKey h id hnames _
  | collapse target g fields =>
    exact .writing (collapse_alike_of_getsKey h id hreflects (htakes target) hfits)
  | statisticSize g e' key' =>
    exact hanswering (statisticSize_alike (presentValues_alike_of_getsKey h id hnames))
  | mean g e' key' => exact hanswering (mean_alike (presentValues_alike_of_getsKey h id hnames))
  | standardDeviation g e' key' =>
    exact hanswering (standardDeviation_alike (presentValues_alike_of_getsKey h id hnames))
  | histogram g e' key' => exact hanswering (histogram_alike_of_getsKey h id hnames)
  | distribution g e' key' bins =>
    exact hanswering (distribution_alike (presentValues_alike_of_getsKey h id hnames) bins)
  | description g => exact absurd (.inr ⟨g, rfl⟩) hasks
  | exportVertices g => exact hanswering (exportVertices_alike_of_getsKey h id)
  | exportEdges g => exact hanswering (exportEdges_alike_of_getsKey h id)
  | _ => cases hreads

/-- The key can be looked for within a graph, and there are only nulls. -/
theorem Grown.exists_cellsInScope (h : env.GetsKey e key columns columns')
    (hR : env.Grown e key columns columns' db db') (hone : env.schema.OneTable e e')
    (hbase : env.Readable db' .base) (hg : env.Readable db' g) {table? : Option String}
    (htable : env.restriction? g e' = .ok table?) :
    ∃ vs, env.cellsInScope db' e' table? key = .ok vs ∧ ∀ v ∈ vs, v = .null := by
  obtain ⟨table?', htable', hids⟩ := hg.restriction? e'
  obtain rfl : table? = table?' := Except.ok.inj (htable.symm.trans htable')
  have hhas : ∀ t, db'.find? (env.schema.annotationTable e') = some t →
      ∀ column ∈ [key], t.has column = true := by
    intro t ht column hcolumn
    obtain ⟨_, t', _, ht', hgrown⟩ := hR.find?_of_folded hone
    obtain rfl : t = t' := Option.some.inj (ht.symm.trans ht')
    rw [List.mem_singleton.mp hcolumn, Table.has, List.contains_iff_mem, Table.names,
      hgrown.columns']
    exact h.added.mem_key
  obtain ⟨rows, hrows⟩ := exists_readRows hbase hids hhas
  have hcells : env.cellsInScope db' e' table? key = .ok (rows.map (·.get key)) := by
    simp [cellsInScope, hrows]
  exact ⟨_, hcells, (hR.blank' hone).of_cells hcells⟩

/-- The description of a named graph, of which no element has the key. A graph that there is not is
missed with the column as without. -/
theorem description_alike_of_grown (h : env.GetsKey e key columns columns') {name : String}
    (hR : env.Grown e key columns columns' db db') (hbase : env.Readable db' .base)
    (hg : env.Tabled db' (.named name)) (o : Origin) :
    Program.Alike (fun db₁ db₁' => db₁ = db ∧ db₁' = db') o .idle (· = ·)
      (env.description (.named name)) (env.description (.named name)) := by
  have hgrown : ∀ {db₁ db₁'}, db₁ = db ∧ db₁' = db' → env.Grown e key columns columns' db₁ db₁' := by
    rintro _ _ ⟨rfl, rfl⟩
    exact hR
  have hfound {e' : Element} (hone : env.schema.OneTable e e') {db₁ db₁' : Database}
      (hdb : db₁ = db ∧ db₁' = db') (table? : Option String)
      (htable : env.restriction? (.named name) e' = .ok table?) :
      ∃ vs, env.cellsInScope db₁' e' table? key = .ok vs ∧ ∀ v ∈ vs, v = .null := by
    obtain ⟨rfl, rfl⟩ := hdb
    cases htables : env.resolve (.named name) with
    | error e => simp [restriction?, htables, bind, Except.bind] at htable
    | ok tables => exact hR.exists_cellsInScope h hone hbase (hg.readable htables) htable
  have hvertexKey (_ : env.schema.OneTable e .vertex) : decide (key ≠ env.schema.idColumn) = true :=
    decide_eq_true h.idColumn_ne.symm
  have hedgeKey (hone : env.schema.OneTable e .edge) : (!env.schema.isReserved key) = true := by
    rw [Bool.not_eq_true', Schema.isReserved, ← Bool.not_eq_true, List.contains_iff_mem]
    exact fun hkey => h.own_ne hone hkey rfl
  unfold description
  refine .bind (describedKeys_alike_of_getsKey (f := fun key => decide (key ≠ env.schema.idColumn)) h
    hgrown hvertexKey hfound) fun _ _ hvertices => ?_
  refine .bind (describedKeys_alike_of_getsKey (f := fun key => !env.schema.isReserved key) h hgrown
    hedgeKey hfound) fun _ _ hedges => ?_
  refine .bind hvertices fun vertexKeys _ hvertexKeys => .bind hedges fun edgeKeys _ hedgeKeys => ?_
  exact .pure (by rw [hvertexKeys, hedgeKeys])

/-! ## Instructions that name the key -/

/-- If no check fails, then all graphs are found, and the target is not the base graph. -/
theorem resolves_of_checks (hchecks : (env.checks i).findSome? id = none)
    (hlate : ∀ g ∈ i.lateSources, ∃ tables, env.resolve g = .ok tables) :
    i.target? ≠ some (.graph .base) ∧
      ∀ g, .graph g ∈ i.handles → ∃ tables, env.resolve g = .ok tables := by
  rw [List.findSome?_eq_none_iff] at hchecks
  have htarget {h : Handle} (hh : i.target? = some h) : (env.writableTables h).error? = none :=
    hchecks _ (List.mem_append_left _ (List.mem_append_left _ (List.mem_append_right _
      (List.mem_map_of_mem (Option.mem_toList.mpr hh)))))
  have hnamed : i.target? ≠ some (.graph .base) := fun hbase => by cases htarget hbase
  refine ⟨hnamed, fun g hg => ?_⟩
  rcases List.mem_append.mp hg with hg | hg
  · have hh := Option.mem_toList.mp hg
    have herror := htarget hh
    rw [writableTables_error? fun hbase => hnamed (hbase ▸ hh)] at herror
    exact Except.exists_ok herror
  · have hlookup (hlookups : i.lookups = i.sources) : ∃ tables, env.resolve g = .ok tables :=
      Except.exists_ok (hchecks (env.tablesOf (.graph g)).error? (by
        rw [checks, hlookups]
        exact List.mem_append_right _ (List.mem_map_of_mem hg)))
    cases i with
    | matchVertices target lhs rhs keys =>
      exact hlate g (by simpa [Instruction.sources, Instruction.lateSources] using hg)
    | _ => exact hlookup rfl

/-- Where a check fails, there is something to look for: nothing is amiss with a statistic of a graph
that there is, unless it has no bins. -/
theorem not_isIdle_of_checks (hnames : i.NamesKey env.schema e key)
    (hlate : ∀ g ∈ i.lateSources, ∃ tables, env.resolve g = .ok tables) {err : Error}
    (hfails : (env.checks i).findSome? id = some err) : ¬ env.IsIdle db i := by
  have hknown {g : GraphRef} (hg : g ∈ i.lateSources) : (env.tablesOf (.graph g)).error? = none := by
    obtain ⟨tables, htables⟩ := hlate g hg
    rw [tablesOf, htables]
    rfl
  have hpass {g : GraphRef} (hg : g ∈ i.lateSources)
      (hchecks : env.checks i = [(env.tablesOf (.graph g)).error?]) : ¬ env.IsIdle db i := by
    rw [hchecks, hknown hg] at hfails
    cases hfails
  cases i with
  | statisticSize g e' key' => exact hpass (.head _) rfl
  | mean g e' key' => exact hpass (.head _) rfl
  | standardDeviation g e' key' => exact hpass (.head _) rfl
  | histogram g e' key' => exact hpass (.head _) rfl
  | distribution g e' key' bins =>
    rintro ⟨hbins, _⟩
    have hchecks : env.checks (.distribution g e' key' bins) =
        [if bins ≤ 0 then some (.noBins bins) else none, (env.tablesOf (.graph g)).error?] := rfl
    rw [hchecks, if_neg (not_le.mpr hbins), hknown (.head _)] at hfails
    cases hfails
  | select | selectCarriers | matchVertices => exact id
  | _ => exact hnames.elim

/-- Without scratch tables, nothing is matched. -/
theorem matchVertices_of_noScratch {target : GraphRef} (lhs rhs : GraphRef) (keys : List String)
    {tables : TablePair} (htarget : env.writable target = .ok tables) (hcan : ¬ s.CanScratch) :
    (env.matchVertices target lhs rhs keys).perform s =
      (.error .statementFailed, { s with requests := s.requests + 1 }) := by
  let s₁ : Store := { s with requests := s.requests + 1 }
  have hname : Name.isGivable (s₁.scratchName ⟨s.requests, "lhs"⟩) ≠ true := by
    intro hname
    rw [Store.scratchName, ScratchNames.name, String.append_assoc, String.append_assoc] at hname
    exact hcan (Name.isGivable_of_append hname)
  have hfails : (Program.createScratch s.requests "lhs").perform s₁ = (.error .statementFailed, s₁) := by
    rw [perform_createScratch, if_pos]
    simpa using hname
  have hlookup : (MonadLiftT.monadLift (env.writable target) : Program TablePair).perform s =
      (.ok tables, s) := by
    rw [htarget]
    rfl
  unfold matchVertices
  refine (perform_bind_of_ok hlookup).trans ?_
  rw [perform_withScratch, perform_bind_of_error hfails]

/-- What there is for an instruction that names a key: tables of ids, and no value for the key in any
of the columns. -/
structure FindsBlank (env : Environment) (e : Element) (key : String) (names : List String)
    (i : Instruction) (db : Database) : Prop where
  blank : ∀ e', env.schema.OneTable e e' → env.Blank db e' key
  base : env.Readable db .base
  tables : ∀ g, .graph g ∈ i.handles → env.Tabled db g
  columns : ∀ e', env.schema.OneTable e e' → ∀ keys, env.HasColumns db e' keys → keys ⊆ names
  depth : ∀ e' t, env.schema.OneTable e e' → db.find? (env.schema.annotationTable e') = some t →
    ∀ g, Sql.selectDepth env.schema g (t.names.filter (· = key)) ≤ Sql.depthLimit

section

variable (h : env.GetsKey e key columns columns') (hR : env.Grown e key columns columns' db db')
  (hbase : env.Readable db .base) (htables : ∀ g, .graph g ∈ i.handles → env.Tabled db g)

include h hR hbase htables

theorem Grown.findsBlank : env.FindsBlank e key (columns'.map (·.name)) i db where
  blank _ := hR.blank h
  base := hbase
  tables := htables
  columns e' hone keys hkeys := by
    obtain ⟨t, _, ht, _, hgrown⟩ := hR.find?_of_folded hone
    refine fun name hname => h.added.sublist.subset ?_
    have hhas := hkeys t ht name hname
    rwa [Table.has, List.contains_iff_mem, Table.names, hgrown.columns] at hhas
  depth e' t hone ht g := by
    obtain ⟨t₀, _, ht₀, _, hgrown⟩ := hR.find?_of_folded hone
    obtain rfl : t = t₀ := Option.some.inj (ht.symm.trans ht₀)
    have hnone : t.names.filter (· = key) = [] := by
      rw [Table.names, hgrown.columns, List.filter_eq_nil_iff]
      exact fun column hcolumn heq => h.added.fresh (of_decide_eq_true heq ▸ hcolumn)
    rw [hnone]
    exact Sql.selectDepth_nil_le env.schema g

theorem Grown.findsBlank' : env.FindsBlank e key (columns'.map (·.name)) i db' where
  blank _ := hR.blank'
  base := hR.readable h hbase
  tables g hg tables hresolve e' := hR.exists_ids h (htables g hg tables hresolve e')
  columns e' hone keys hkeys name hname := by
    obtain ⟨_, t, _, ht, hgrown⟩ := hR.find?_of_folded hone
    have hhas := hkeys t ht name hname
    rwa [Table.has, List.contains_iff_mem, Table.names, hgrown.columns'] at hhas
  depth e' t hone ht g := by
    obtain ⟨_, t₀, _, ht₀, hgrown⟩ := hR.find?_of_folded hone
    obtain rfl : t = t₀ := Option.some.inj (ht.symm.trans ht₀)
    rw [Table.names, hgrown.columns', h.added.filter_key]
    exact Sql.selectDepth_singleton_le env.schema g key

end

/-- Where nothing has a value for the key, an instruction that names it does nothing and answers
nothing. -/
theorem wp_run_of_blank [RegexLibrary] [Summation]
    {names names' : List String} (hnames : i.NamesKey env.schema e key)
    (hshown : ¬ i.ShowsColumn env.schema e key) (hfinds : env.FindsBlank e key names' i s.database)
    (hfits : i.StillFits env.schema e key names names')
    (hresolves : i.target? ≠ some (.graph .base) ∧
      ∀ g, .graph g ∈ i.handles → ∃ tables, env.resolve g = .ok tables)
    (hbins : ∀ g e' key' bins, i = .distribution g e' key' bins → 0 < bins)
    (hcan : ∀ target lhs rhs keys, i = .matchVertices target lhs rhs keys → s.CanScratch) :
    (i.run env).wp (fun a s' => a = i.emptyAnswer ∧ s.database.Same s'.database) s := by
  obtain ⟨hblank, hbase, htabled, hcolumns, hdepth⟩ := hfinds
  have hready {g : GraphRef} (hg : .graph g ∈ i.handles) : env.Readable s.database g := by
    obtain ⟨tables, htables⟩ := hresolves.2 g hg
    exact ⟨tables, htables, htabled g hg tables htables⟩
  have htargets {target : GraphRef} (heq : i.target? = some (.graph target)) :
      env.Readable s.database target ∧ target ≠ .base := by
    refine ⟨hready (Instruction.mem_handles_of_target heq), ?_⟩
    rintro rfl
    exact hresolves.1 heq
  have hsource {g : GraphRef} (hg : .graph g ∈ i.sources) : env.Readable s.database g :=
    hready (Instruction.mem_handles_of_source hg)
  have hwriting {m : Program Unit} (hm : m.wp (fun _ s' => s.database.Same s'.database) s) :
      (Instruction.writing m).wp (fun a s' => a = .done ∧ s.database.Same s'.database) s :=
    .bind (hm.mono fun _ _ hs' => .pure ⟨rfl, hs'⟩)
  have hstatistics {g : GraphRef} {e' : Element} {key' : String}
      (hnames : env.schema.OneTable e e' ∧ key' = key) (hg : .graph g ∈ i.sources) :=
    statistics_of_noValue
      (presentValues_of_blank hbase (hnames.2 ▸ hblank e' hnames.1) (hsource hg))
  have hanswering {a : Answer} (hrun : (i.run env).perform s = (.ok a, s)) :
      (i.run env).wp (fun b s' => b = a ∧ s.database.Same s'.database) s :=
    ⟨a, s, hrun, rfl, fun _ => rfl⟩
  cases i with
  | select e' target g p =>
    cases p with
    | none => exact hnames.elim
    | some p =>
      obtain ⟨hone, hwildcard, hkey⟩ := hnames
      obtain ⟨hwritten, hnamed⟩ := htargets rfl
      have hoperator : p.operator ≠ .notEqual := fun hop => hshown ⟨hone, hwildcard, hkey, hop⟩
      have hfilter (existing : List String) : p.columnsIn existing = existing.filter (· = key) := by
        simp [Predicate.columnsIn, hwildcard, hkey]
      exact hwriting (wp_select_of_blank hbase hwritten hnamed (hblank e' hone) (hsource (.head _))
        hwildcard hkey hoperator (fun t ht => hfilter t.names ▸ hdepth e' t hone ht g)
        ((hfits hone).2 hwildcard hkey))
  | selectCarriers target g keys =>
    obtain ⟨hone, hkey⟩ := hnames
    obtain ⟨hwritten, hnamed⟩ := htargets rfl
    exact hwriting (wp_selectCarriers_of_blank hbase hwritten hnamed (hblank .vertex hone)
      (hsource (.head _)) hkey fun hhas => hfits hone hkey (hcolumns .vertex hone keys hhas))
  | matchVertices target lhs rhs keys =>
    obtain ⟨hone, hkey⟩ := hnames
    obtain ⟨hwritten, hnamed⟩ := htargets rfl
    exact hwriting (wp_matchVertices_of_blank hbase hwritten hnamed (hcan target lhs rhs keys rfl)
      (hblank .vertex hone) (hsource (.head _)) (hsource (.tail _ (.head _))) hkey fun hhas =>
        hfits hone hkey (hcolumns .vertex hone keys hhas))
  | statisticSize g e' key' => exact hanswering (hstatistics hnames (.head _)).1
  | mean g e' key' => exact hanswering (hstatistics hnames (.head _)).2.1
  | standardDeviation g e' key' => exact hanswering (hstatistics hnames (.head _)).2.2.1
  | histogram g e' key' => exact hanswering (hstatistics hnames (.head _)).2.2.2.1
  | distribution g e' key' bins =>
    exact hanswering ((hstatistics hnames (.head _)).2.2.2.2 bins (hbins g e' key' bins rfl))
  | _ => exact hnames.elim

/-- What comes of such an instruction is settled before it looks at a table, and it leaves all tables
as they are. -/
theorem exists_outcome_of_namesKey [RegexLibrary] [Summation]
    {names names' : List String} (hfresh : s.FreshRequests)
    (hnames : i.NamesKey env.schema e key) (hshown : ¬ i.ShowsColumn env.schema e key)
    (hfits : i.StillFits env.schema e key names names')
    (hlate : ∀ g ∈ i.lateSources, ∃ tables, env.resolve g = .ok tables) :
    ∃ outcome : Except Error Answer, ∀ db, env.FindsBlank e key names' i db →
      env.outcome { s with database := db } i = outcome ∧
        db.Same (env.issue { s with database := db } i).database ∧
        (env.issue { s with database := db } i).scratch = s.scratch := by
  have hstops {db : Database} {err : Error} {s' : Store}
      (hrun : (i.run env).perform { s with database := db } = (.error err, s'))
      (hs' : s'.database = db ∧ s'.scratch = s.scratch) :
      env.outcome { s with database := db } i = .error err ∧
        db.Same (env.issue { s with database := db } i).database ∧
        (env.issue { s with database := db } i).scratch = s.scratch := by
    rw [outcome, issue, hrun]
    exact ⟨rfl, fun _ => by rw [hs'.1], hs'.2⟩
  cases hchecks : (env.checks i).findSome? id with
  | some err =>
    refine ⟨.error err, fun db hfinds => ?_⟩
    have hannotated : env.Annotated db := fun e' => by
      obtain ⟨t, ht, _⟩ := hfinds.base.annotations e'
      exact ⟨t, ht⟩
    have hidle : ¬ env.IsIdle db i := not_isIdle_of_checks hnames hlate hchecks
    have hrun := i.run_refuses (s := { s with database := db }) hannotated hidle err hchecks
    exact hstops hrun ⟨rfl, rfl⟩
  | none =>
    have hresolves := resolves_of_checks hchecks hlate
    by_cases hcan : (∃ target lhs rhs keys, i = .matchVertices target lhs rhs keys) ∧ ¬ s.CanScratch
    · obtain ⟨⟨target, lhs, rhs, keys, rfl⟩, hcan⟩ := hcan
      obtain ⟨tables, htables⟩ := hresolves.2 target (Instruction.mem_handles_of_target rfl)
      have hwritable : env.writable target = .ok tables := by
        cases target with
        | base => exact absurd rfl hresolves.1
        | named name => exact htables
      refine ⟨.error .statementFailed, fun db _ => ?_⟩
      have hrun := matchVertices_of_noScratch (s := { s with database := db }) lhs rhs keys hwritable
        hcan
      refine hstops (perform_bind_of_error hrun) ?_
      exact ⟨rfl, rfl⟩
    · refine ⟨.ok i.emptyAnswer, fun db hfinds => ?_⟩
      have hbins (g : GraphRef) (e' : Element) (key' : String) (bins : Int)
          (heq : i = .distribution g e' key' bins) : 0 < bins := by
        subst heq
        rw [List.findSome?_eq_none_iff] at hchecks
        have htest := hchecks (if bins ≤ 0 then some (.noBins bins) else none) (.head _)
        by_contra hle
        rw [if_pos (not_lt.mp hle)] at htest
        cases htest
      obtain ⟨_, s', hrun, rfl, hsame⟩ := wp_run_of_blank (s := { s with database := db }) hnames
        hshown hfinds hfits hresolves hbins fun target lhs rhs keys heq =>
          not_not.mp fun hno => hcan ⟨⟨target, lhs, rhs, keys, heq⟩, hno⟩
      rw [outcome, issue, hrun]
      exact ⟨rfl, hsame, (ends.ok (i.run_leaves env _) hrun).2 hfresh⟩

/-- Tables that nothing was done to are as they were. -/
theorem Grown.of_same {db₁ db₁' : Database} (hR : env.Grown e key columns columns' db db')
    (hs : db.Same db₁) (hs' : db'.Same db₁') : env.Grown e key columns columns' db₁ db₁' := by
  obtain ⟨t, t', ht, ht', hgrown⟩ := hR.grown
  refine ⟨fun name hname => ?_, t, t', (hs _).trans ht, (hs' _).trans ht', hgrown⟩
  rw [hs name, hs' name, hR.others name hname]

/-! ## All instructions -/

/-- A new key shows in no instruction but those that show columns. With a column of nulls for the key,
the outcome is the same as without, and so is all that is left, the column aside. For an instruction
that asks for the key, graphs must have their tables, and those that it looks up late must be there; and
no statement may outgrow the engine. -/
theorem growth_is_invisible [RegexLibrary] [Summation] (h : env.GetsKey e key columns columns')
    (hR : env.Grown e key columns columns' s.database db') (hfresh : s.FreshRequests)
    (hbase : env.Readable s.database .base) (hshown : ¬ i.ShowsColumn env.schema e key)
    (hready : i.AsksForKey env.schema e key →
      (∀ g, .graph g ∈ i.handles → env.Tabled s.database g) ∧
        ∀ g ∈ i.lateSources, ∃ tables, env.resolve g = .ok tables)
    (hfits : i.StillFits env.schema e key (columns.map (·.name)) (columns'.map (·.name)))
    (hmetadata : ∀ name ∈ i.metadataHandles, ∀ tables e', env.resolveMetadata name = .ok tables →
      Name.folded (tables.part e') ≠ Name.folded (env.schema.annotationTable e)) :
    env.outcome { s with database := db' } i = env.outcome s i ∧
      Database.GrownOrMade (env.schema.annotationTable e) key columns columns'
        (env.issue s i).database (env.issue { s with database := db' } i).database ∧
      (env.issue { s with database := db' } i).scratchRoles = (env.issue s i).scratchRoles := by
  by_cases hmakes : i.makes = true
  · exact Alike.same_start hfresh (.inl hR) (run_alike_of_makes hmakes e key columns columns' _)
  rw [Bool.not_eq_true] at hmakes
  by_cases hnames : i.NamesKey env.schema e key
  · obtain ⟨htables, hlate⟩ := hready (.inl hnames)
    obtain ⟨outcome, houtcome⟩ := exists_outcome_of_namesKey hfresh hnames hshown hfits hlate
    obtain ⟨ho, hsame, hscratch⟩ := houtcome s.database (hR.findsBlank h hbase htables)
    obtain ⟨ho', hsame', hscratch'⟩ := houtcome db' (hR.findsBlank' h hbase htables)
    refine ⟨ho'.trans ho.symm, .inl (Grown.of_same hR hsame hsame'), ?_⟩
    rw [Store.scratchRoles, Store.scratchRoles, hscratch', hscratch]
  by_cases hdescribes : ∃ g, i = .description g
  · obtain ⟨g, rfl⟩ := hdescribes
    cases g with
    | base => exact absurd trivial hshown
    | named name =>
      have htabled := (hready (.inr ⟨_, rfl⟩)).1 _ (Instruction.mem_handles_of_source (.head _))
      have hdescription := description_alike_of_grown h hR (hR.readable h hbase) (hR.tabled h htabled)
      obtain ⟨ho, ⟨hdb, hdb'⟩, hscratch⟩ := Alike.same_start hfresh ⟨rfl, rfl⟩
        (.bind (hdescription _) fun _ _ heq => .pure (congrArg _ heq))
      exact ⟨ho, .inl (Grown.of_same hR (fun _ => congrArg (Database.find? · _) hdb)
        fun _ => congrArg (Database.find? · _) hdb'), hscratch⟩
  · have hasks : ¬ i.AsksForKey env.schema e key := not_or.mpr ⟨hnames, hdescribes⟩
    obtain ⟨ho, hgrown, hscratch⟩ := Alike.same_start hfresh hR
      (run_alike_of_grown h hmakes hasks hfits hmetadata _)
    exact ⟨ho, .inl hgrown, hscratch⟩

end Environment

namespace SmallWorld

/-! ## A small world with one more key -/

/-- The vertices may have no key, or one that none of them has a value for. -/
theorem copied_getsKey : environment.GetsKey .vertex "k" (environment.schema.listing [] []).columns
    (environment.schema.listing ["k"] []).columns where
  added := ⟨by decide, environment.schema.idColumns, [], ⟨"k", .text⟩, rfl, by decide, by decide⟩
  own e hone := by
    cases e with
    | vertex => decide
    | edge => exact absurd hone (show Name.folded _ ≠ Name.folded _ by decide)

theorem copied_grown : environment.Grown .vertex "k" (environment.schema.listing [] []).columns
    (environment.schema.listing ["k"] []).columns (copied []).database (copied ["k"]).database := by
  have hrow (id : String) : Row.Grown "k" ⟨[("hash", .text id)]⟩ ⟨[("hash", .text id)]⟩ :=
    ⟨fun _ _ => rfl, rfl⟩
  have hvertices : Table.Grown "k" (environment.schema.listing [] []).columns
      (environment.schema.listing ["k"] []).columns (environment.schema.listing [] ["a", "b"])
      (environment.schema.listing ["k"] ["a", "b"]) :=
    ⟨rfl, rfl, .cons (hrow "a") (.cons (hrow "b") .nil)⟩
  have hstart : environment.Grown .vertex "k" (environment.schema.listing [] []).columns
      (environment.schema.listing ["k"] []).columns
      (Database.empty.put "vertex" (environment.schema.listing [] ["a", "b"]))
      (Database.empty.put "vertex" (environment.schema.listing ["k"] ["a", "b"])) := by
    refine ⟨fun name hname => ?_, _, _, rfl, rfl, hvertices⟩
    have hother : Name.folded name ≠ Name.folded "vertex" := hname
    rw [Database.find?_put, Database.find?_put, if_neg hother, if_neg hother]
  exact ((((hstart.put (by decide) _).put (by decide) _).put (by decide) _).put (by decide) _).put
    (by decide) _

/-- The vertices that carry the key. -/
def carriersOfKey : Instruction := .selectCarriers (.named "out") .base ["k"]

/-- No vertex carries a key that has no column, and none a key that has one of nulls. -/
theorem growth_is_invisible_carriers :
    environment.GetsKey .vertex "k" (environment.schema.listing [] []).columns
        (environment.schema.listing ["k"] []).columns ∧
      environment.Grown .vertex "k" (environment.schema.listing [] []).columns
        (environment.schema.listing ["k"] []).columns (copied []).database (copied ["k"]).database ∧
      (copied []).FreshRequests ∧ environment.Readable (copied []).database .base ∧
      carriersOfKey.AsksForKey environment.schema .vertex "k" ∧
      environment.outcome (copied ["k"]) carriersOfKey =
        environment.outcome (copied []) carriersOfKey := by
  have hasks : carriersOfKey.AsksForKey environment.schema .vertex "k" := .inl ⟨rfl, by simp⟩
  refine ⟨copied_getsKey, copied_grown, copied_fresh [], copied_readable [] (by simp), hasks, ?_⟩
  refine (Environment.growth_is_invisible (i := carriersOfKey) copied_getsKey copied_grown
    (copied_fresh []) (copied_readable [] (by simp)) id
    (fun _ => ⟨fun g hg => (copied_readable [] ?_).tabled, fun g hg => nomatch hg⟩)
    (fun _ _ _ => by decide) (by simp [carriersOfKey, Instruction.metadataHandles])).1
  have hin : g = .named "out" ∨ g = .base := by
    simpa [carriersOfKey, Instruction.handles, Instruction.sources, Instruction.target?,
      Instruction.access?, Access.target] using hg
  rcases hin with rfl | rfl <;> decide

/-- How many vertices of an unknown graph have the key. -/
def sizeOfNowhere : Instruction := .statisticSize (.named "nowhere") .vertex "k"

/-- Without a column for the key nothing asks for the graph. With one, it is missed. -/
theorem not_growth_is_invisible_nowhere :
    environment.GetsKey .vertex "k" (environment.schema.listing [] []).columns
        (environment.schema.listing ["k"] []).columns ∧
      environment.Grown .vertex "k" (environment.schema.listing [] []).columns
        (environment.schema.listing ["k"] []).columns (copied []).database (copied ["k"]).database ∧
      ¬ sizeOfNowhere.ShowsColumn environment.schema .vertex "k" ∧
      environment.outcome (copied []) sizeOfNowhere = .ok (.size 0) ∧
      environment.outcome (copied ["k"]) sizeOfNowhere = .error (.unknownGraph "nowhere") :=
  ⟨copied_getsKey, copied_grown, id, rfl, rfl⟩

end SmallWorld
end Provenance
