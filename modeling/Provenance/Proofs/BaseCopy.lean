-- SUMMARY: Instructions on a named graph that holds all ids of the base graph.
import Provenance.Proofs.BlankKeys
import Provenance.Proofs.Independence

/-!
# A named copy of the base graph

The base graph is read straight from the annotation tables, a named graph through membership in its own
tables. For a named graph that holds every id of the base graph once, this makes no difference to any
instruction but the description: its place among the sources of an instruction may be taken by the base
graph, here or there or everywhere. One thing remains. A search for a predicate in all columns is
refused when its condition is nested too deeply, and the membership test is a level more.
-/
namespace Provenance

open Program Store

namespace Environment

/-- The value occurs as an id, or as an end of an edge. -/
def Occurs (env : Environment) (db : Database) (v : Value) : Prop :=
  v ≠ .null ∧ ((∃ t, db.find? env.schema.vertexTable = some t ∧ v ∈ t.values env.schema.idColumn) ∨
    ∃ t, db.find? env.schema.edgeTable = some t ∧ ∃ column ∈ env.schema.reserved,
      v ∈ t.values column)

/-- The graph holds, once each, the ids of the annotation tables, of which none is null and none occurs
twice. -/
def CopiesBase (env : Environment) (db : Database) (name : String) (tables : TablePair) : Prop :=
  env.resolve (.named name) = .ok tables ∧ ∀ e, ∃ ids held,
    env.schema.Lists db (env.schema.annotationTable e) ids ∧ env.schema.Lists db (tables.part e) held ∧
      ids.Nodup ∧ .null ∉ ids ∧ held.Perm ids

/-- In the place of the base graph, the copy may stand. -/
def Replaces (name : String) (g g' : GraphRef) : Prop := g = g' ∨ (g = .base ∧ g' = .named name)

/-- One database in both runs, which has kept the annotation tables and those of the copy. -/
structure KeepsCopy (env : Environment) (tables : TablePair) (before db db' : Database) : Prop where
  same : db = db'
  annotations : ∀ e, db.find? (env.schema.annotationTable e) =
    before.find? (env.schema.annotationTable e)
  copy : ∀ e, db.find? (tables.part e) = before.find? (tables.part e)

/-- The table of the copy for the annotation table. -/
def CopyTable (env : Environment) (tables : TablePair) (e : Element) (table table' : String) : Prop :=
  table = table' ∨ (table = env.schema.annotationTable e ∧ table' = tables.part e)

/-- The restriction to the copy for none, or for that to the annotation table itself. -/
def CopyRestriction (env : Environment) (tables : TablePair) (e : Element)
    (table? table?' : Option String) : Prop :=
  table? = table?' ∨
    ((table? = none ∨ table? = some (env.schema.annotationTable e)) ∧ table?' = some (tables.part e))

variable {env : Environment} {before db db' : Database} {name : String} {tables : TablePair}
  {i j : Instruction} {s : Store}

/-- Rows of which all ids are listed are not restricted. -/
theorem restrict_of_lists {t : Table} {rows : List Row} {table : String} {vs : List Value}
    (hkeeps : env.schema.KeepsIds t env.schema.idColumn) (hrows : rows ⊆ t.rows)
    (hlists : env.schema.Lists db table vs) (hnull : .null ∉ t.values env.schema.idColumn)
    (hall : ∀ v ∈ t.values env.schema.idColumn, v ∈ vs) :
    env.restrict db { t with rows } (some table) = .ok rows := by
  have hhas : Table.has { t with rows } env.schema.idColumn = true := hkeeps.has
  have haffinity : Table.affinity { t with rows } env.schema.idColumn =
      (⟨env.schema.idAffinity, vs⟩ : Cells).affinity := hkeeps.affinity
  have hwithin : Table.rowsWithin { t with rows } env.schema.idColumn
      ⟨env.schema.idAffinity, vs⟩ = rows := by
    rw [Table.rowsWithin_eq haffinity]
    refine List.filter_eq_self.mpr fun r hr => Value.memberOf_iff.mpr ?_
    have hid : r.get env.schema.idColumn ∈ t.values env.schema.idColumn :=
      List.mem_map_of_mem (hrows hr)
    exact ⟨fun hn => hnull (hn ▸ hid), hall _ hid⟩
  simp only [restrict, hhas, hlists.ids, ok_bind, hwithin]
  rfl

theorem sameAnnotations_of_keepsCopy (hcopy : env.CopiesBase before name tables) (e : Element) :
    env.SameAnnotations (env.KeepsCopy tables before) (env.CopyTable tables e)
      (env.CopyRestriction tables e) e
      (fun names => ∃ t, before.find? (env.schema.annotationTable e) = some t ∧ t.names = names) where
  part h := h.imp (congrArg some) fun h => ⟨.inr (congrArg some h.1), congrArg some h.2⟩
  find? hR := by rw [hR.same]
  columns hR ht := ⟨_, (hR.annotations e).symm.trans ht, rfl⟩
  restrict {db db' table? table?' t rows} hR hS ht hrows := by
    obtain ⟨rfl, hannotations, hcopies⟩ := hR
    obtain ⟨ids, held, ⟨t', ht', hkeeps, hids⟩, hheld, _, hnull, hperm⟩ := hcopy.2 e
    obtain rfl : t = t' := Option.some.inj (ht.symm.trans ((hannotations e).trans ht'))
    subst hids
    have hcopied : env.schema.Lists db (tables.part e) held := by
      obtain ⟨c, hc, hlisted⟩ := hheld
      exact ⟨c, (hcopies e).trans hc, hlisted⟩
    have hannotated : env.schema.Lists db (env.schema.annotationTable e) _ :=
      ⟨t, (hannotations e).trans ht', hkeeps, rfl⟩
    have hright := restrict_of_lists hkeeps hrows hcopied hnull fun v hv => hperm.mem_iff.mpr hv
    obtain rfl | ⟨rfl | rfl, rfl⟩ := hS
    · rfl
    · exact hright.symm
    · exact (restrict_of_lists hkeeps hrows hannotated hnull fun _ => id).trans hright.symm

/-- What occurs is in the form in which ids are kept. -/
theorem Occurs.stored {v : Value} (h : env.Occurs before v)
    (hcopy : env.CopiesBase before name tables) (hedges : env.HasEdgeTable before) :
    env.schema.idAffinity.store v = v := by
  obtain ⟨_, ⟨t, ht, hv⟩ | ⟨t, ht, column, hcolumn, hv⟩⟩ := h
  · obtain ⟨ids, _, ⟨t', ht', hkeeps, _⟩, _⟩ := hcopy.2 .vertex
    obtain rfl : t = t' := Option.some.inj (ht.symm.trans ht')
    exact hkeeps.stored v hv
  · obtain ⟨t', ht', htable⟩ := hedges
    obtain rfl : t = t' := Option.some.inj (ht.symm.trans ht')
    exact (htable.keeps column hcolumn).stored v hv

/-- Unless a double occurs, the order tells apart all that occur. -/
theorem ordered_of_noDouble (h : ∀ x, ¬ env.Occurs before (.num (.real x))) :
    Value.Ordered (env.Occurs before) := by
  refine Value.ordered_of_exact fun v hv => ?_
  cases v with
  | null => exact absurd rfl hv.1
  | num n =>
    cases n with
    | int n => exact .inl ⟨n, rfl⟩
    | real x => exact absurd hv (h x)
  | text s => exact .inr ⟨s, rfl⟩

/-- Where ids are kept as texts, no number occurs. -/
theorem ordered_of_textIds (htext : env.schema.idAffinity = .text)
    (hcopy : env.CopiesBase before name tables) (hedges : env.HasEdgeTable before) :
    Value.Ordered (env.Occurs before) := by
  refine ordered_of_noDouble fun x hx => ?_
  have hstored := hx.stored hcopy hedges
  rw [htext] at hstored
  cases hstored

theorem reflects_of_keepsCopy (hcopy : env.CopiesBase before name tables)
    (hedges : env.HasEdgeTable before) (hordered : Value.Ordered (env.Occurs before)) :
    env.Reflects (env.KeepsCopy tables before) (env.Occurs before) (env.CopyTable tables)
      (env.CopyRestriction tables) := by
  have hids (e : Element) {v : Value} {ids : List Value}
      (hlists : env.schema.Lists before (env.schema.annotationTable e) ids) (hnull : .null ∉ ids)
      (hv : v ∈ ids) : env.Occurs before v := by
    obtain ⟨t, ht, _, rfl⟩ := hlists
    refine ⟨fun hn => hnull (hn ▸ hv), ?_⟩
    cases e with
    | vertex => exact .inl ⟨t, ht, hv⟩
    | edge => exact .inr ⟨t, ht, _, env.schema.idColumn_mem_reserved, hv⟩
  refine reflects_of_sameAnnotations (sameAnnotations_of_keepsCopy hcopy) (.inl rfl) hordered
    (fun v hv => hv.stored hcopy hedges) (fun hR hT => ?_) (fun hR hT => ?_)
    fun hR hcolumn hcells v w _ hv hnull => ?_
  · obtain ⟨rfl, hannotations, hcopies⟩ := hR
    obtain rfl | ⟨rfl, rfl⟩ := hT
    · exact (Except.Alike.of_eq rfl).mono fun _ _ => .of_eq
    · rename_i e
      obtain ⟨ids, held, hlists, hheld, _, hnull, hperm⟩ := hcopy.2 e
      rw [Schema.ids_congr (hannotations e), Schema.ids_congr (hcopies e), hlists.ids, hheld.ids]
      exact .ok ⟨rfl, .inr ⟨hperm.symm, fun v hv => hids e hlists hnull hv⟩⟩
  · obtain ⟨rfl, hannotations, hcopies⟩ := hR
    obtain rfl | ⟨rfl, rfl⟩ := hT
    · exact (Except.Alike.of_eq rfl).mono fun _ _ heq => heq ▸ rfl
    · rename_i e
      obtain ⟨ids, held, ⟨t, ht, _, hids⟩, ⟨t', ht', _, hheld⟩, _, _, hperm⟩ := hcopy.2 e
      simp only [Database.table, (hannotations e).trans ht, (hcopies e).trans ht']
      refine .ok ?_
      have hlength := hperm.length_eq
      rw [← hids, ← hheld, Table.values, Table.values, List.length_map, List.length_map] at hlength
      exact hlength.symm
  · obtain ⟨t, ht, hcells⟩ := Except.bind_eq_ok.mp hcells
    obtain ⟨rows, hrows, hcells⟩ := Except.bind_eq_ok.mp hcells
    obtain rfl := Except.ok.inj hcells
    obtain ⟨r, hr, rfl⟩ := List.mem_map.mp hv
    have hfind := (hR.annotations .edge).symm.trans (Database.tableWith_eq_ok ht).1
    exact ⟨hnull, .inr ⟨t, hfind, _, env.endpointColumns_subset_reserved hcolumn,
      List.mem_map_of_mem (mem_of_restrict hrows hr)⟩⟩

/-- The copy is a counterpart of the base graph. -/
theorem counterparts_of_replaces (hcopy : env.CopiesBase before name tables) {g g' : GraphRef}
    (h : Replaces name g g') :
    env.Counterparts (env.CopyTable tables) (env.CopyRestriction tables) g g' := by
  obtain rfl | ⟨rfl, rfl⟩ := h
  · refine ⟨(Except.Alike.of_eq rfl).mono ?_, fun e => (Except.Alike.of_eq rfl).mono ?_⟩
    · rintro t _ rfl e
      exact .inl rfl
    · rintro table? _ rfl
      exact .inl rfl
  · refine ⟨?_, fun e => ?_⟩
    · rw [hcopy.1]
      exact .ok fun e => .inr ⟨by cases e <;> rfl, rfl⟩
    · have hrestriction : env.restriction? (.named name) e = .ok (some (tables.part e)) := by
        simp [restriction?, hcopy.1]
      rw [hrestriction]
      exact .ok (.inr ⟨.inl rfl, rfl⟩)

/-- A table apart from the annotation tables and the copy's is written to in both runs. -/
theorem shared_of_apart {table : String}
    (hannotations : ∀ e, Name.folded (env.schema.annotationTable e) ≠ Name.folded table)
    (hcopy : ∀ e, Name.folded (tables.part e) ≠ Name.folded table) :
    Database.Shared (env.KeepsCopy tables before) table where
  find? hR := by rw [hR.same]
  put t hR := by
    refine ⟨by rw [hR.same], fun e => ?_, fun e => ?_⟩
    · rw [Database.find?_put, if_neg (hannotations e), hR.annotations]
    · rw [Database.find?_put, if_neg (hcopy e), hR.copy]
  drop hR := by
    refine ⟨by rw [hR.same], fun e => ?_, fun e => ?_⟩
    · rw [Database.find?_drop, if_neg (hannotations e), hR.annotations]
    · rw [Database.find?_drop, if_neg (hcopy e), hR.copy]

/-- The table of another handle that is written to. -/
theorem shared_of_writable (hapart : env.Apart) (hresolve : env.resolve (.named name) = .ok tables)
    {h : Handle} (hother : h ≠ .graph (.named name)) {tables' : TablePair}
    (htables' : env.writableTables h = .ok tables') (e : Element) :
    Database.Shared (env.KeepsCopy tables before) (tables'.part e) := by
  have htables := tablesOf_of_writable htables'
  have hbase : Handle.graph .base ≠ h := by
    rintro rfl
    cases htables'
  refine shared_of_apart (fun e' => ?_) fun e' => ?_
  · have hpart := hapart _ _ _ _ hbase (rfl : env.tablesOf (.graph .base) = .ok _) htables e' e
    cases e' <;> exact hpart
  · exact hapart _ _ _ _ hother.symm (hresolve : env.tablesOf (.graph (.named name)) = _) htables e' e

variable {e : Element} {target g : GraphRef} {p : Predicate} {t : Table}

/-- Where the condition is nested too deeply, together with a restriction if there is one, the selection
fails. -/
theorem select_refused [RegexLibrary]
    (ht : s.database.find? (env.schema.annotationTable e) = some t)
    (hruns : p.columnsIn t.names = [] → p.operator = .notEqual)
    (hdepth : Sql.depthLimit < Sql.selectDepth env.schema g (p.columnsIn t.names)) :
    (env.select e target g (some p)).ends (fun _ _ => False) (fun _ => True) s := by
  unfold select
  refine .bind (.ofExcept trivial fun tables htables => ?_)
  refine .bind (.ofExcept trivial fun _ _ => .bind (.ofExcept trivial fun table? htable => ?_))
  refine .bind (.query trivial fun columns hnames => ?_)
  obtain rfl : t.names = columns := by
    simpa [Database.columnNames, Database.table, ht] using hnames
  refine .ite (fun hempty => ?_) fun _ => .update trivial fun db hdb => ?_
  · simp only [Bool.and_eq_true, List.isEmpty_iff, decide_eq_true_eq] at hempty
    exact absurd (hruns hempty.1) hempty.2
  · obtain ⟨vs, hvs, _⟩ := Except.bind_eq_ok.mp hdb
    obtain ⟨ids, hids, _⟩ := Except.bind_eq_ok.mp hvs
    obtain ⟨hfits, _⟩ := Except.guard_eq_ok.mp hids
    rw [Sql.selectDepth_eq htable] at hfits
    exact hfits hdepth

end Environment

/-- The depth of a search in the ids and some keys. -/
theorem Sql.anyDepth_of_keys {schema : Schema} {keys : List String}
    (hkeys : ∀ key ∈ keys, schema.isReserved key = false) :
    anyDepth schema (schema.idColumn :: keys) = keys.length + 3 := by
  have hid : referenceDepth schema false schema.idColumn + 1 = 3 := by
    simp [referenceDepth, Schema.isReserved]
  have hkey : keys.map (fun key => referenceDepth schema false key + 1) =
      List.replicate keys.length 2 := by
    refine List.eq_replicate_iff.mpr ⟨by simp, fun d hd => ?_⟩
    obtain ⟨key, hkey, rfl⟩ := List.mem_map.mp hd
    simp [referenceDepth, hkeys key hkey]
  rw [anyDepth, List.map_cons, hid, hkey, joinedDepth_replicate (by decide), Nat.add_comm]

/-! ## A small world and its copy -/

namespace SmallWorld

/-- One edge between two vertices. -/
def oneEdge : Table :=
  ⟨[⟨"hash", .text⟩, ⟨"childhash", .text⟩, ⟨"parenthash", .text⟩],
    [⟨[("hash", .text "e"), ("childhash", .text "a"), ("parenthash", .text "b")]⟩]⟩

/-- A world of one edge whose vertices have some keys, and `src` as a copy of it. -/
def copied (keys : List String) : Store :=
  let listing := environment.schema.listing
  { start with
    database := (((((Database.empty.put "vertex" (listing keys ["a", "b"])).put "edge" oneEdge).put
      (tables "src").vertices (listing [] ["b", "a"])).put (tables "src").edges (listing [] ["e"])).put
      (tables "out").vertices (listing [] [])).put (tables "out").edges (listing [] []) }

variable (keys : List String)

theorem copied_fresh : (copied keys).FreshRequests := by
  simp [FreshRequests, copied, start, Store.create]

theorem copied_copiesBase :
    environment.CopiesBase (copied keys).database "src" (tables "src") := by
  refine ⟨rfl, fun e => ?_⟩
  cases e with
  | vertex =>
    refine ⟨[.text "a", .text "b"], [.text "b", .text "a"], ?_, ?_, by decide, by decide, by decide⟩
    · exact Schema.lists_listing keys ["a", "b"] idAffinity_eq rfl
    · exact Schema.lists_listing [] ["b", "a"] idAffinity_eq rfl
  | edge =>
    refine ⟨[.text "e"], [.text "e"], ⟨oneEdge, rfl, ⟨by decide, by decide, ?_⟩, by decide⟩, ?_,
      by decide, by decide, .refl _⟩
    · unfold Affinity.Keeps
      decide
    · exact Schema.lists_listing [] ["e"] idAffinity_eq rfl

theorem copied_hasEdgeTable : environment.HasEdgeTable (copied keys).database := by
  refine ⟨oneEdge, rfl, fun column hcolumn => ?_, by decide⟩
  simp only [Schema.reserved, List.mem_cons, List.not_mem_nil, or_false] at hcolumn
  rcases hcolumn with rfl | rfl | rfl
  all_goals
    refine ⟨by decide, by decide, ?_⟩
    unfold Affinity.Keeps
    decide

theorem copied_ordered : Value.Ordered (environment.Occurs (copied keys).database) :=
  Environment.ordered_of_textIds idAffinity_eq (copied_copiesBase keys) (copied_hasEdgeTable keys)

theorem copied_readable (keys : List String) {g : GraphRef}
    (hg : g ∈ [.base, .named "src", .named "out"]) :
    environment.Readable (copied keys).database g := by
  simp only [List.mem_cons, List.not_mem_nil, or_false] at hg
  rcases hg with rfl | rfl | rfl
  · refine ⟨_, rfl, fun e => ?_⟩
    cases e with
    | vertex => exact ⟨_, rfl, by simp [Table.has]⟩
    | edge => exact ⟨oneEdge, rfl, by decide⟩
  all_goals
    refine ⟨_, rfl, fun e => ?_⟩
    cases e <;> exact ⟨_, rfl, by decide⟩

theorem environment_apart : environment.Apart := Environment.apart_of_pairwise (by decide)

/-- The subgraph of the world over its vertices. -/
def wholeSubgraph : Instruction := .subgraph (.named "out") .base .base

/-- The same with the copy for a skeleton. -/
def subgraphOfCopy : Instruction := .subgraph (.named "out") .base (.named "src")

/-- So many keys that one search in all columns is nested as deeply as statements may be, but for one
level. -/
def manyKeys : List String := (List.range 996).map fun n => "k" ++ toString n

theorem not_isReserved_manyKeys :
    ∀ key ∈ manyKeys, environment.schema.isReserved key = false := by
  intro key hkey
  obtain ⟨n, _, rfl⟩ := List.mem_map.mp hkey
  have hne (name : String) (hname : name.toList.head? ≠ some 'k') : "k" ++ toString n ≠ name := by
    rintro rfl
    simp at hname
  have hout : "k" ++ toString n ∉ environment.schema.reserved := by
    simp only [Schema.reserved, List.mem_cons, List.not_mem_nil, or_false, not_or]
    exact ⟨hne "hash" (by decide), hne "childhash" (by decide), hne "parenthash" (by decide)⟩
  simpa [Schema.isReserved] using hout

/-- A search in all columns. -/
def anywhere : Predicate := ⟨Predicate.wildcard, .equal, "x"⟩

/-- The search puts what it finds into `out`. -/
def findAnywhere (g : GraphRef) : Instruction :=
  .select .vertex (.named "out") g (some anywhere)

section Deep

variable {keys : List String} (hkeys : ∀ key ∈ keys, environment.schema.isReserved key = false)

include hkeys

theorem anyDepth_copied (ids : List String) :
    Sql.anyDepth environment.schema
      (anywhere.columnsIn (environment.schema.listing keys ids).names) = keys.length + 3 := by
  rw [Schema.names_listing, show anywhere.columnsIn (environment.schema.idColumn :: keys) =
    environment.schema.idColumn :: keys from rfl, Sql.anyDepth_of_keys hkeys]

theorem outcome_findAnywhere_base (hdepth : keys.length + 3 ≤ Sql.depthLimit) :
    environment.outcome (copied keys) (findAnywhere .base) = .ok .done := by
  let t := environment.schema.listing keys ["a", "b"]
  have hsome : anywhere.columnsIn t.names ≠ [] := by
    simp [anywhere, Predicate.columnsIn, Predicate.isWildcard, t]
  have hfits : Sql.selectDepth environment.schema .base (anywhere.columnsIn t.names) ≤
      Sql.depthLimit := by
    rwa [Sql.selectDepth, anyDepth_copied hkeys]
  obtain ⟨ids, hids⟩ : ∃ ids, environment.idsMatching (copied keys).database .vertex none anywhere
      (anywhere.columnsIn t.names) = .ok ids :=
    ⟨_, Environment.idsMatching_of_restrict (g := .base) (t := t) rfl (by simp [Table.has, t]) rfl hfits
      ((if_neg (by simpa using hsome)).trans rfl) rfl⟩
  have hbase : environment.Readable (copied keys).database .base := copied_readable keys (by simp)
  obtain ⟨_, s', hrun, _⟩ := Environment.wp_select_of_idsMatching hbase
    (copied_readable keys (g := .named "out") (by simp)) (by simp) hbase rfl rfl
    (fun hnone => absurd hnone hsome) hids
  change (Program.perform (_ >>= _) (copied keys)).1 = _
  rw [perform_bind_of_ok hrun]
  rfl

theorem outcome_findAnywhere_copy
    (hdepth : Sql.depthLimit < Sql.restrictedDepth (keys.length + 3)) :
    environment.outcome (copied keys) (findAnywhere (.named "src")) ≠ .ok .done := by
  intro heq
  have hrefused : (environment.select .vertex (.named "out") (.named "src") (some anywhere)).ends
      (fun _ _ => False) (fun _ => True) (copied keys) :=
    Environment.select_refused (t := environment.schema.listing keys ["a", "b"]) rfl
      (by simp [anywhere, Predicate.columnsIn, Predicate.isWildcard])
      (by rwa [Sql.selectDepth, anyDepth_copied hkeys])
  change (Program.perform (_ >>= _) (copied keys)).1 = _ at heq
  cases hrun : (environment.select .vertex (.named "out") (.named "src")
      (some anywhere)).perform (copied keys) with
  | mk outcome s' =>
    cases outcome with
    | ok a => exact hrefused.ok hrun
    | error e =>
      rw [perform_bind_of_error hrun] at heq
      cases heq

end Deep

end SmallWorld
end Provenance
