-- SUMMARY: The rows that exports answer, and the keys that descriptions find in them.
import Provenance.Proofs.ContentIds
import Provenance.Proofs.SetOperations

/-!
# What exports answer

An export takes out the annotation rows of the elements that a graph has, a vertex or an edge for each
row, and of several for one id it keeps one. A graph is described by asking for each key whether some
of these rows has a value. Rows that are exported with one id are told apart by the description only.
-/
namespace Provenance

open Program

/-! ## Annotations of a row -/

namespace Annotations

theorem contains_insert {a : Annotations} {key text k : String} :
    (a.insert key text).contains k = true ↔ k = key ∨ a.contains k = true := by
  rw [contains, get?_insert]
  by_cases hk : k = key <;> simp [hk, contains]

theorem contains_foldl_insert {entries : List (String × String)} {a : Annotations} {k : String} :
    (entries.foldl (fun a entry => a.insert entry.1 entry.2) a).contains k = true ↔
      a.contains k = true ∨ k ∈ entries.map (·.1) := by
  induction entries generalizing a with
  | nil => simp
  | cons entry entries ih =>
    rw [List.foldl_cons, ih, contains_insert, List.map_cons, List.mem_cons, or_left_comm, or_assoc]

theorem contains_ofList {entries : List (String × String)} {k : String} :
    (ofList entries).contains k = true ↔ k ∈ entries.map (·.1) := by
  rw [ofList, contains_foldl_insert]
  exact or_iff_right (by simp [contains, get?, empty])

end Annotations

theorem Value.isSome_text?_iff {v : Value} : v.text?.isSome = true ↔ v ≠ .null := by
  cases v <;> simp [text?]

/-- The annotations of a row are its cells that are not null. -/
theorem Table.contains_annotationsOf {t : Table} {except : List String} {r : Row} {key : String} :
    (t.annotationsOf except r).contains key = true ↔
      key ∈ t.names ∧ key ∉ except ∧ r.get key ≠ .null := by
  rw [annotationsOf, Annotations.contains_ofList, ← Value.isSome_text?_iff]
  simp only [List.map_filterMap, List.mem_filterMap, List.mem_filter, Option.map_map,
    Option.map_eq_some_iff, Function.comp_apply, Option.isSome_iff_exists]
  constructor
  · rintro ⟨name, ⟨hname, hexcept⟩, text, htext, rfl⟩
    exact ⟨hname, by simpa using hexcept, text, htext⟩
  · rintro ⟨hname, hexcept, text, htext⟩
    exact ⟨key, ⟨hname, by simpa using hexcept⟩, text, htext, rfl⟩

/-! ## One element for each id -/

section Collapse

variable {α : Type} {put : List α → α → List α} {id : α → String} {known xs : List α} {i : String}

theorem mem_map_foldl
    (hput : ∀ known x, i ∈ (put known x).map id ↔ i ∈ known.map id ∨ i = id x) :
    i ∈ (xs.foldl put known).map id ↔ i ∈ known.map id ∨ i ∈ xs.map id := by
  induction xs generalizing known with
  | nil => simp
  | cons x xs ih => rw [List.foldl_cons, ih, hput, or_assoc, List.map_cons, List.mem_cons]

/-- Elements with an id each are kept as they are. -/
theorem foldl_eq_append
    (hput : ∀ known x, id x ∉ known.map id → put known x = known ++ [x])
    (h : ((known ++ xs).map id).Nodup) : xs.foldl put known = known ++ xs := by
  induction xs generalizing known with
  | nil => simp
  | cons x xs ih =>
    have hnew : id x ∉ known.map id := by
      intro hmem
      rw [List.map_append, List.nodup_append] at h
      exact h.2.2 _ hmem _ (by simp) rfl
    rw [List.foldl_cons, hput known x hnew, ih (by simpa using h)]
    simp

end Collapse

theorem putVertex_of_new {vs : List Vertex} {v : Vertex} (h : v.id ∉ vs.map (·.id)) :
    putVertex vs v = vs ++ [v] := by
  have hnew : vs.any (·.same v) = false := by
    rw [List.any_eq_false]
    intro w hw hsame
    exact h (List.mem_map.mpr ⟨w, hw, by simpa [Vertex.same] using hsame⟩)
  rw [putVertex, if_neg (by simp [hnew])]

/-- A vertex that takes the place of another has its id. -/
theorem mem_ids_putVertex {vs : List Vertex} {v : Vertex} {i : String} :
    i ∈ (putVertex vs v).map (·.id) ↔ i ∈ vs.map (·.id) ∨ i = v.id := by
  by_cases hnew : v.id ∈ vs.map (·.id)
  · have hkept : (vs.map fun w => if w.same v then v else w).map (·.id) = vs.map (·.id) := by
      rw [List.map_map]
      refine List.map_congr_left fun w _ => ?_
      by_cases hw : w.id = v.id <;> simp [Vertex.same, hw]
    obtain ⟨w, hw, hid⟩ := List.mem_map.mp hnew
    have hknown : vs.any (·.same v) = true :=
      List.any_eq_true.mpr ⟨w, hw, by simpa [Vertex.same] using hid⟩
    rw [putVertex, if_pos hknown, hkept]
    exact (or_iff_left_of_imp fun heq => heq ▸ hnew).symm
  · rw [putVertex_of_new hnew]
    simp

theorem putEdge_of_new {es : List Edge} {e : Edge} (h : e.id ∉ es.map (·.id)) :
    putEdge es e = es ++ [e] := by
  have hnew : es.any (·.same e) = false := by
    rw [List.any_eq_false]
    intro f hf hsame
    simp only [Edge.same, Bool.and_eq_true, decide_eq_true_eq] at hsame
    exact h (List.mem_map.mpr ⟨f, hf, hsame.1.1⟩)
  rw [putEdge, if_neg (by simp [hnew])]

theorem mem_ids_putEdge {es : List Edge} {e : Edge} {i : String} :
    i ∈ (putEdge es e).map (·.id) ↔ i ∈ es.map (·.id) ∨ i = e.id := by
  by_cases hnew : es.any (·.same e) = true
  · obtain ⟨f, hf, hsame⟩ := List.any_eq_true.mp hnew
    simp only [Edge.same, Bool.and_eq_true, decide_eq_true_eq] at hsame
    rw [putEdge, if_pos hnew]
    exact (or_iff_left_of_imp fun heq => List.mem_map.mpr ⟨f, hf, hsame.1.1.trans heq.symm⟩).symm
  · rw [putEdge, if_neg hnew]
    simp

theorem mem_ids_distinctVertices {vs : List Vertex} {i : String} :
    i ∈ (distinctVertices vs).map (·.id) ↔ i ∈ vs.map (·.id) :=
  (mem_map_foldl fun _ _ => mem_ids_putVertex).trans (by simp)

theorem mem_ids_distinctEdges {es : List Edge} {i : String} :
    i ∈ (distinctEdges es).map (·.id) ↔ i ∈ es.map (·.id) :=
  (mem_map_foldl fun _ _ => mem_ids_putEdge).trans (by simp)

theorem distinctVertices_of_nodup {vs : List Vertex} (h : (vs.map (·.id)).Nodup) :
    distinctVertices vs = vs :=
  foldl_eq_append (fun _ _ => putVertex_of_new) (by simpa using h)

theorem distinctEdges_of_nodup {es : List Edge} (h : (es.map (·.id)).Nodup) :
    distinctEdges es = es :=
  foldl_eq_append (fun _ _ => putEdge_of_new) (by simpa using h)

namespace Environment

variable {env : Environment} {s : Store} {db : Database} {g : GraphRef} {e : Element} {t : Table}
  {us us' : List Value} {key : String}

/-! ## The rows of a graph -/

/-- The rows of the elements with these ids. -/
def rowsOf (env : Environment) (t : Table) (us : List Value) : List Row :=
  t.rows.filter fun r => r.get env.schema.idColumn ∈ us

theorem mem_rowsOf {r : Row} :
    r ∈ env.rowsOf t us ↔ r ∈ t.rows ∧ r.get env.schema.idColumn ∈ us := by
  simp [rowsOf]

theorem rowsOf_congr (h : ∀ v, v ∈ us ↔ v ∈ us') : env.rowsOf t us = env.rowsOf t us' := by
  unfold rowsOf
  simp only [h]

/-- The annotation tables have ids for all their rows, and their edges have ends. The reserved columns
have different names. -/
structure Exportable (env : Environment) (db : Database) : Prop where
  ids : env.HoldsIds db .base
  ends : env.HasColumns db .edge env.schema.reserved
  reserved : env.schema.reserved.Nodup

theorem resolve_base_part (env : Environment) (e : Element) :
    TablePair.part ⟨env.schema.vertexTable, env.schema.edgeTable⟩ e = env.schema.annotationTable e := by
  cases e <;> rfl

/-- What is written to a target that is none of them leaves the annotation tables as they are. -/
theorem FreshFor.annotations_of_same {before db' : Database} {target : String} {tables : TablePair}
    {sources : List GraphRef} (h : env.FreshFor before target tables sources) (hbase : .base ∈ sources)
    (hsame : Database.SameBut [tables.vertices, tables.edges] db db') (e : Element) :
    db'.find? (env.schema.annotationTable e) = db.find? (env.schema.annotationTable e) := by
  refine hsame _ (TablePair.forall_tables fun e' => ?_)
  rw [← env.resolve_base_part]
  exact h.outside .base hbase _ rfl e e'

theorem Holds.annotations {vs : List Value} (h : env.Holds db .base e vs) :
    env.schema.Lists db (env.schema.annotationTable e) vs := by
  obtain ⟨_, hr, hlists⟩ := h
  obtain rfl := Except.ok.inj hr
  rwa [env.resolve_base_part] at hlists

/-- The annotation table of the elements, without a null among its ids. -/
structure IsAnnotationTable (env : Environment) (db : Database) (e : Element) (t : Table) :
    Prop where
  found : db.find? (env.schema.annotationTable e) = some t
  keeps : env.schema.KeepsIds t env.schema.idColumn
  ids : .null ∉ t.values env.schema.idColumn

theorem HoldsIds.exists_annotationTable (h : env.HoldsIds db .base) (e : Element) :
    ∃ t, env.IsAnnotationTable db e t := by
  obtain ⟨_, hholds, hnull⟩ := h e
  obtain ⟨t, ht, hkeeps, rfl⟩ := hholds.annotations
  exact ⟨t, ht, hkeeps, hnull⟩

namespace IsAnnotationTable

variable (ht : env.IsAnnotationTable db e t)

include ht

theorem of_find? {db' : Database}
    (hsame : db'.find? (env.schema.annotationTable e) = db.find? (env.schema.annotationTable e)) :
    env.IsAnnotationTable db' e t :=
  ⟨hsame.trans ht.found, ht.keeps, ht.ids⟩

theorem holds_base : env.Holds db .base e (t.values env.schema.idColumn) :=
  ⟨_, rfl, by rw [env.resolve_base_part]; exact ⟨t, ht.found, ht.keeps, rfl⟩⟩

/-- The annotation rows in the scope of a graph, base or not, are those of the ids it holds. -/
theorem restrict (hg : env.Holds db g e us) : ∃ table?, env.restriction? g e = .ok table? ∧
    env.restrict db t table? = .ok (env.rowsOf t us) := by
  obtain ⟨table?, hr, ⟨rfl, hlists⟩ | ⟨table, rfl, hlists⟩⟩ := hg.restriction?
  · obtain rfl := hlists.unique ht.holds_base.annotations
    refine ⟨none, hr, ?_⟩
    have hall : env.rowsOf t (t.values env.schema.idColumn) = t.rows :=
      List.filter_eq_self.mpr fun r hr => decide_eq_true (List.mem_map_of_mem hr)
    rw [hall]
    rfl
  · refine ⟨some table, hr, ?_⟩
    have hrows : (t.rows.filter fun r => (r.get env.schema.idColumn).memberOf us) =
        env.rowsOf t us := by
      refine List.filter_congr fun r hr => ?_
      have hne : r.get env.schema.idColumn ≠ .null := fun hnull =>
        ht.ids (hnull ▸ List.mem_map_of_mem hr)
      rw [Bool.eq_iff_iff, Value.memberOf_iff, decide_eq_true_iff]
      exact and_iff_right hne
    simp [Environment.restrict, ht.keeps.has, hlists.ids,
      Table.rowsWithin_eq (c := ⟨env.schema.idAffinity, us⟩) ht.keeps.affinity, hrows]

end IsAnnotationTable

/-! ## Exports -/

theorem takeColumns_eq_ok {names taken : List String} (hnodup : names.Nodup)
    (hnew : ∀ name ∈ names, name ∉ taken) (hhas : ∀ name ∈ names, t.has name = true) :
    takeColumns t taken names = .ok () := by
  induction names generalizing taken with
  | nil => rfl
  | cons name names ih =>
    obtain ⟨hout, hrest⟩ := List.nodup_cons.mp hnodup
    have hfirst : (t.rows.isEmpty || (t.has name && !taken.contains name)) = true := by
      simp [hhas name (by simp), hnew name (by simp)]
    rw [takeColumns, if_pos hfirst]
    refine ih hrest (fun other hother => ?_) fun other hother => hhas other (by simp [hother])
    rw [List.mem_cons, not_or]
    exact ⟨fun heq => hout (heq ▸ hother), hnew other (by simp [hother])⟩

theorem wp_exported (ht : env.IsAnnotationTable s.database e t) (hg : env.Holds s.database g e us) :
    (env.exported g e).wp (fun t' s' => t' = { t with rows := env.rowsOf t us } ∧ s' = s) s := by
  obtain ⟨table?, hr, hrows⟩ := ht.restrict hg
  unfold exported
  refine .bind (.ofExcept hr (.query ?_ ⟨rfl, rfl⟩))
  simp [Database.table, ht.found, hrows]

theorem outcome_exportVertices [RegexLibrary] [Summation]
    (ht : env.IsAnnotationTable s.database .vertex t)
    (hg : env.Holds s.database g .vertex us) : env.outcome s (.exportVertices g) =
      .ok (.vertices (distinctVertices ((env.rowsOf t us).map (env.schema.vertexOf t)))) := by
  have htaken : takeColumns { t with rows := env.rowsOf t us } [] [env.schema.idColumn] = .ok () :=
    takeColumns_eq_ok (List.nodup_singleton _) (by simp) fun name hname =>
      List.mem_singleton.mp hname ▸ ht.keeps.has
  have hwp : (env.exportVertices g).wp (fun vs _ => vs =
      distinctVertices ((env.rowsOf t us).map (env.schema.vertexOf t))) s := by
    refine .bind ((wp_exported ht hg).mono fun _ _ h => ?_)
    obtain ⟨rfl, rfl⟩ := h
    exact .bind (.ofExcept htaken (.pure rfl))
  obtain ⟨vs, s', hrun, rfl⟩ := hwp
  rw [outcome, Instruction.run, perform_bind_of_ok hrun]
  rfl

theorem outcome_exportEdges [RegexLibrary] [Summation]
    (ht : env.IsAnnotationTable s.database .edge t)
    (hg : env.Holds s.database g .edge us) (hreserved : env.schema.reserved.Nodup)
    (hends : ∀ column ∈ env.schema.reserved, t.has column = true) :
    env.outcome s (.exportEdges g) =
      .ok (.edges (distinctEdges ((env.rowsOf t us).map (env.schema.edgeOf t)))) := by
  have htaken : takeColumns { t with rows := env.rowsOf t us } [] env.schema.reserved = .ok () :=
    takeColumns_eq_ok hreserved (by simp) hends
  have hwp : (env.exportEdges g).wp (fun es _ => es =
      distinctEdges ((env.rowsOf t us).map (env.schema.edgeOf t))) s := by
    refine .bind ((wp_exported ht hg).mono fun _ _ h => ?_)
    obtain ⟨rfl, rfl⟩ := h
    exact .bind (.ofExcept htaken (.pure rfl))
  obtain ⟨es, s', hrun, rfl⟩ := hwp
  rw [outcome, Instruction.run, perform_bind_of_ok hrun]
  rfl

end Environment
/-! ## A world with annotations -/

/-- A column of texts keeps them as ids. -/
theorem Schema.lists_texts {schema : Schema} {db : Database} {table : String} {t : Table}
    (htext : schema.idAffinity = .text) (ht : db.find? table = some t)
    (hhas : t.has schema.idColumn = true) (haffinity : t.affinity schema.idColumn = .text)
    (ids : List String) (hids : t.values schema.idColumn = ids.map .text) :
    schema.Lists db table (ids.map .text) := by
  refine ⟨t, ht, ⟨hhas, haffinity.trans htext.symm, fun v hv => ?_⟩, hids⟩
  obtain ⟨_, _, rfl⟩ := List.mem_map.mp (hids ▸ hv)
  rw [htext]
  rfl

namespace SmallWorld

open Environment

/-- Two vertices and an edge between them, which has an annotation as one of the vertices has. -/
def annotationTables : Element → Table
  | .vertex => ⟨[⟨"hash", .text⟩, ⟨"k", .text⟩],
      [⟨[("hash", .text "a"), ("k", .text "x")]⟩, ⟨[("hash", .text "b")]⟩]⟩
  | .edge => ⟨[⟨"hash", .text⟩, ⟨"childhash", .text⟩, ⟨"parenthash", .text⟩, ⟨"n", .text⟩],
      [⟨[("hash", .text "e"), ("childhash", .text "a"), ("parenthash", .text "b"), ("n", .text "1")]⟩]⟩

/-- The vertex and the edge with annotations are in `src`, and the other vertex is in `dst`. -/
def annotated : Store :=
  holding (annotationTables .vertex) (annotationTables .edge) (["a"], ["e"]) (["b"], [])

/-- What there is of the elements in the world and in its graphs. -/
def annotatedIds : GraphRef → Element → List String
  | .base, .vertex => ["a", "b"]
  | .base, .edge => ["e"]
  | .named name, .vertex => if name = "src" then ["a"] else ["b"]
  | .named name, .edge => if name = "src" then ["e"] else []

theorem annotated_holds {g : GraphRef} (hg : g ∈ [.base, .named "src", .named "dst"]) (e : Element) :
    environment.Holds annotated.database g e ((annotatedIds g e).map .text) := by
  simp only [List.mem_cons, List.not_mem_nil, or_false] at hg
  rcases hg with rfl | rfl | rfl
  · refine ⟨_, rfl, ?_⟩
    cases e <;> exact Schema.lists_texts idAffinity_eq rfl rfl rfl _ rfl
  · cases e with
    | vertex => exact holding_src_vertices ..
    | edge => exact holding_src_edges ..
  · cases e with
    | vertex => exact holding_dst_vertices ..
    | edge => exact ⟨tables "dst", resolve_eq (by simp), Schema.lists_listing [] _ idAffinity_eq rfl⟩

theorem annotated_holdsIds {g : GraphRef} (hg : g ∈ [.base, .named "src", .named "dst"]) :
    environment.HoldsIds annotated.database g :=
  fun e => ⟨_, annotated_holds hg e, by simp⟩

theorem annotated_isAnnotationTable (e : Element) :
    environment.IsAnnotationTable annotated.database e (annotationTables e) := by
  have hfound : annotated.database.find? (environment.schema.annotationTable e) =
      some (annotationTables e) := by cases e <;> rfl
  obtain ⟨_, ht, hkeeps, hvalues⟩ := (annotated_holds (g := .base) (by simp) e).annotations
  obtain rfl := Option.some.inj (hfound.symm.trans ht)
  exact ⟨hfound, hkeeps, by simp [hvalues]⟩

theorem annotated_exportable : environment.Exportable annotated.database where
  ids := annotated_holdsIds (by simp)
  ends t ht := by
    obtain rfl := Option.some.inj ((annotated_isAnnotationTable .edge).found.symm.trans ht)
    decide
  reserved := by decide

theorem annotated_fresh {sources : List GraphRef} (hout : .named "out" ∉ sources) :
    environment.FreshFor annotated.database "out" (tables "out") sources :=
  (holding_fresh_out ..).freshFor (apart_of_pairwise (by decide)) hout

/-! ## A world of numbers -/

/-- The environment of the small worlds for ids that are numbers where they can be. -/
def numbers : Environment :=
  { environment with schema := { environment.schema with idType := "INTEGER" } }

/-- What a column of numbers keeps of a text such as `1e400`. -/
def infinity : Value := .num (.real (1.0 / 0.0))

theorem infinity_eq_store : infinity = numbers.schema.idAffinity.store (.text "1e400") := by decide

theorem ownTables_numbers : numbers.OwnTables := fun slot hslot => ownTables slot hslot

/-- Vertices with these annotation rows, all of them in `src`, and no edges. -/
def numbering (rows : List Row) : Store :=
  let ids (rows : List Row) : Table :=
    ⟨numbers.schema.idColumns, rows.map fun r => ⟨[("hash", r.get "hash")]⟩⟩
  { start with
    database := (((((Database.empty.put "vertex"
        ⟨[⟨"hash", .integer⟩, ⟨"j", .text⟩, ⟨"k", .text⟩], rows⟩).put
      "edge" ⟨[⟨"hash", .integer⟩, ⟨"childhash", .integer⟩, ⟨"parenthash", .integer⟩], []⟩).put
      (tables "src").vertices (ids rows)).put (tables "src").edges (ids [])).put
      (tables "out").vertices (ids [])).put (tables "out").edges (ids []) }

section Numbering

variable {rows : List Row} {g : GraphRef}

theorem numbering_canScratch (rows : List Row) : (numbering rows).CanScratch := by
  rw [Store.CanScratch, show (numbering rows).scratchStem = Session.standardScratchStem from rfl]
  decide

theorem numbering_fresh (rows : List Row) :
    numbers.Fresh (numbering rows).database "out" (tables "out") :=
  ownTables_numbers.fresh rfl (fun e => by cases e <;> rfl) (annotationTable_ne (by simp))

theorem numbering_holds_vertices (hrows : Affinity.integer.Keeps (rows.map (·.get "hash")))
    (hg : g ∈ [.base, .named "src"]) :
    numbers.Holds (numbering rows).database g .vertex (rows.map (·.get "hash")) := by
  simp only [List.mem_cons, List.not_mem_nil, or_false] at hg
  rcases hg with rfl | rfl
  · exact ⟨_, rfl, _, rfl, ⟨rfl, rfl, hrows⟩, rfl⟩
  · have hvalues : (rows.map fun r => (⟨[("hash", r.get "hash")]⟩ : Row)).map (·.get "hash") =
        rows.map (·.get "hash") := by
      rw [List.map_map]
      rfl
    exact ⟨_, rfl, _, rfl, ⟨rfl, rfl, fun v hv => hrows v (hvalues ▸ hv)⟩, hvalues⟩

theorem numbering_holds_edges (rows : List Row) (hg : g ∈ [.base, .named "src"]) :
    numbers.Holds (numbering rows).database g .edge [] := by
  simp only [List.mem_cons, List.not_mem_nil, or_false] at hg
  rcases hg with rfl | rfl
  all_goals exact ⟨_, rfl, _, rfl, ⟨rfl, rfl, fun _ h => absurd h List.not_mem_nil⟩, rfl⟩

theorem numbering_holdsIds (hrows : Affinity.integer.Keeps (rows.map (·.get "hash")))
    (hnull : .null ∉ rows.map (·.get "hash")) (hg : g ∈ [.base, .named "src"]) :
    numbers.HoldsIds (numbering rows).database g
  | .vertex => ⟨_, numbering_holds_vertices hrows hg, hnull⟩
  | .edge => ⟨_, numbering_holds_edges rows hg, by simp⟩

theorem numbering_exportable (hrows : Affinity.integer.Keeps (rows.map (·.get "hash")))
    (hnull : .null ∉ rows.map (·.get "hash")) : numbers.Exportable (numbering rows).database where
  ids := numbering_holdsIds hrows hnull (by simp)
  ends t ht := by
    obtain rfl := Option.some.inj
      ((show (numbering rows).database.find? "edge" = some _ from rfl).symm.trans ht)
    decide
  reserved := by decide

end Numbering

end SmallWorld
end Provenance
