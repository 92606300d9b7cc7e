-- SUMMARY: The keys that a graph is described by against those of its exported elements.
import Provenance.Proofs.Exports

/-!
# The keys that a graph is described by

A description asks for each annotation column whether some element of the graph has a value there, and an
export hands the values out row by row. Both go over the same rows. So what is exported has no key that is
not described, and it has all of them if no row is exported in place of another.
-/
namespace Provenance

open Program

/-! ## Keys of rows -/

/-- The annotation columns in which some of the rows have a value. -/
def Table.keysOf (t : Table) (except : List String) (rows : List Row) : List String :=
  (t.names.filter (· ∉ except)).filter fun key => (rows.map (·.get key)).any (· ≠ .null)

theorem Table.mem_keysOf {t : Table} {except : List String} {rows : List Row} {key : String} :
    key ∈ t.keysOf except rows ↔ ∃ r ∈ rows, (t.annotationsOf except r).contains key = true := by
  simp only [keysOf, List.mem_filter, contains_annotationsOf, List.any_map, List.any_eq_true,
    Function.comp_apply, decide_eq_true_eq]
  constructor
  · rintro ⟨⟨hname, hexcept⟩, r, hr, hvalue⟩
    exact ⟨r, hr, hname, hexcept, hvalue⟩
  · rintro ⟨r, hr, hname, hexcept, hvalue⟩
    exact ⟨⟨hname, hexcept⟩, r, hr, hvalue⟩

/-! ## What is kept of several elements with one id -/

section Collapse

variable {α : Type} {put : List α → α → List α} {known xs : List α} {y : α}

theorem mem_of_mem_foldl (hput : ∀ known x, y ∈ put known x → y ∈ known ∨ y = x)
    (h : y ∈ xs.foldl put known) : y ∈ known ∨ y ∈ xs := by
  induction xs generalizing known with
  | nil => exact .inl h
  | cons x xs ih =>
    rw [List.mem_cons]
    obtain hknown | hxs := ih h
    · exact (hput known x hknown).imp_right .inl
    · exact .inr (.inr hxs)

end Collapse

theorem mem_of_mem_distinctVertices {vs : List Vertex} {v : Vertex} (h : v ∈ distinctVertices vs) :
    v ∈ vs := by
  refine (mem_of_mem_foldl (fun known x hv => ?_) h).resolve_left List.not_mem_nil
  rw [putVertex] at hv
  split at hv
  · obtain ⟨w, hw, rfl⟩ := List.mem_map.mp hv
    split
    · exact .inr rfl
    · exact .inl hw
  · simpa using hv

theorem mem_of_mem_distinctEdges {es : List Edge} {e : Edge} (h : e ∈ distinctEdges es) : e ∈ es := by
  refine (mem_of_mem_foldl (fun known x he => ?_) h).resolve_left List.not_mem_nil
  rw [putEdge] at he
  split at he
  · exact .inl he
  · simpa using he

/-- Some of the exported elements has an annotation under the key. -/
def IsCarried (vs : List Vertex) (es : List Edge) : Element → String → Prop
  | .vertex, key => ∃ v ∈ vs, v.annotations.contains key = true
  | .edge, key => ∃ e ∈ es, e.annotations.contains key = true

namespace Environment

variable {env : Environment} {s : Store} {db : Database} {name target : String} {g : GraphRef}
  {e : Element} {t : Table} {us : List Value} {tables : TablePair} {key : String}

/-! ## Descriptions -/

/-- These keys are the answer to what describes the graph. -/
def DescribedBy [RegexLibrary] [Summation]
    (env : Environment) (s : Store) (g : GraphRef) (keys : Element → List String) : Prop :=
  env.outcome s (.description g) = .ok (.keys (keys .vertex) (keys .edge))

theorem DescribedBy.unique [RegexLibrary] [Summation]
    {keys keys' : Element → List String} (h : env.DescribedBy s g keys)
    (h' : env.DescribedBy s g keys') : keys = keys' := by
  obtain ⟨hvertex, hedge⟩ := Answer.keys.inj (Except.ok.inj (h.symm.trans h'))
  funext e
  cases e with
  | vertex => exact hvertex
  | edge => exact hedge

theorem describedBy_of_wp [RegexLibrary] [Summation] {keys : Element → List String}
    (h : (env.description g).wp (fun answer _ => answer = (keys .vertex, keys .edge)) s) :
    env.DescribedBy s g keys := by
  obtain ⟨_, _, hrun, rfl⟩ := h
  rw [DescribedBy, outcome, Instruction.run, perform_bind_of_ok hrun]
  rfl

theorem wp_describedKeys {keys : List String} (ht : env.IsAnnotationTable s.database e t)
    (hg : env.Holds s.database g e us) (hkeys : keys = t.names.filter (· ∉ env.schema.ownColumns e))
    {Q : List String → Store → Prop}
    (hQ : Q (t.keysOf (env.schema.ownColumns e) (env.rowsOf t us)) s) :
    (env.describedKeys g e keys).wp Q s := by
  subst hkeys
  obtain ⟨table?, hr, hrows⟩ := ht.restrict hg
  unfold describedKeys
  refine .bind (.ofExcept hr (.filterM_query (fun key hkey => ?_) hQ))
  have hhas : t.has key = true := by simpa [Table.has] using (List.mem_filter.mp hkey).1
  simp [cellsInScope, rowsInScope, Database.tableWith, Database.table, ht.found, hhas, hrows]

theorem IsAnnotationTable.columnNames (ht : env.IsAnnotationTable db e t) :
    db.columnNames (env.schema.annotationTable e) = .ok t.names := by
  simp [Database.columnNames, Database.table, ht.found]

theorem vertexKeys_eq (env : Environment) (names : List String) :
    names.filter (· ≠ env.schema.idColumn) = names.filter (· ∉ env.schema.ownColumns .vertex) := by
  simp [Schema.ownColumns]

theorem edgeKeys_eq (env : Environment) (names : List String) :
    (names.filter fun key => !env.schema.isReserved key) =
      names.filter (· ∉ env.schema.ownColumns .edge) := by
  refine List.filter_congr fun key _ => Bool.eq_iff_iff.mpr ?_
  rw [decide_eq_true_iff]
  simp [Schema.ownColumns, Schema.isReserved]

section Answers

variable {tables : Element → Table} (ht : ∀ e, env.IsAnnotationTable s.database e (tables e))

include ht

/-- The base graph is described by all annotation columns, whether there is a value in them or not. -/
theorem describedBy_base [RegexLibrary] [Summation] :
    env.DescribedBy s .base fun e => (tables e).names.filter (· ∉ env.schema.ownColumns e) := by
  refine describedBy_of_wp (.bind (.query (ht .vertex).columnNames
    (.bind (.query (ht .edge).columnNames (.pure ?_)))))
  rw [vertexKeys_eq, edgeKeys_eq]

theorem describedBy_named [RegexLibrary] [Summation] {ids : Element → List Value}
    (hg : ∀ e, env.Holds s.database (.named name) e (ids e)) :
    env.DescribedBy s (.named name) fun e =>
      (tables e).keysOf (env.schema.ownColumns e) (env.rowsOf (tables e) (ids e)) :=
  describedBy_of_wp (.bind (.query (ht .vertex).columnNames (.bind (.query (ht .edge).columnNames
    (.bind (wp_describedKeys (ht .vertex) (hg .vertex) (env.vertexKeys_eq _)
      (.bind (wp_describedKeys (ht .edge) (hg .edge) (env.edgeKeys_eq _) (.pure rfl)))))))))

end Answers

/-! ## Descriptions and exports -/

/-- No two rows of the kind are exported under one id. -/
def ToldApart (env : Environment) (db : Database) (e : Element) : Prop :=
  ∀ vs, env.Holds db .base e vs → (vs.map Value.label).Nodup

theorem ToldApart.nodup_rowsOf (h : env.ToldApart db e) (ht : env.IsAnnotationTable db e t)
    (us : List Value) :
    ((env.rowsOf t us).map fun r => (r.get env.schema.idColumn).label).Nodup := by
  have hall := h _ ht.holds_base
  rw [Table.values, List.map_map] at hall
  exact hall.sublist (List.filter_sublist.map _)

/-- Exports of rows have no other keys than the rows, and the same if all the rows are told apart. -/
theorem isCarried_exports (env : Environment) (tables : Element → Table) (rows : Element → List Row)
    {vs : List Vertex} {es : List Edge}
    (hvs : vs = distinctVertices ((rows .vertex).map (env.schema.vertexOf (tables .vertex))))
    (hes : es = distinctEdges ((rows .edge).map (env.schema.edgeOf (tables .edge)))) (e : Element) :
    (∀ key, IsCarried vs es e key → key ∈ (tables e).keysOf (env.schema.ownColumns e) (rows e)) ∧
    (((rows e).map fun r => (r.get env.schema.idColumn).label).Nodup →
      ∀ key ∈ (tables e).keysOf (env.schema.ownColumns e) (rows e), IsCarried vs es e key) := by
  cases e with
  | vertex =>
    refine ⟨fun key hkey => ?_, fun hnodup key hkey => ?_⟩
    · obtain ⟨v, hv, hvalue⟩ := hkey
      rw [hvs] at hv
      obtain ⟨r, hr, rfl⟩ := List.mem_map.mp (mem_of_mem_distinctVertices hv)
      exact Table.mem_keysOf.mpr ⟨r, hr, hvalue⟩
    · obtain ⟨r, hr, hvalue⟩ := Table.mem_keysOf.mp hkey
      rw [distinctVertices_of_nodup (by rw [List.map_map]; exact hnodup)] at hvs
      exact ⟨_, hvs ▸ List.mem_map_of_mem hr, hvalue⟩
  | edge =>
    refine ⟨fun key hkey => ?_, fun hnodup key hkey => ?_⟩
    · obtain ⟨e, he, hvalue⟩ := hkey
      rw [hes] at he
      obtain ⟨r, hr, rfl⟩ := List.mem_map.mp (mem_of_mem_distinctEdges he)
      exact Table.mem_keysOf.mpr ⟨r, hr, hvalue⟩
    · obtain ⟨r, hr, hvalue⟩ := Table.mem_keysOf.mp hkey
      rw [distinctEdges_of_nodup (by rw [List.map_map]; exact hnodup)] at hes
      exact ⟨_, hes ▸ List.mem_map_of_mem hr, hvalue⟩

theorem mem_keysOf_rowsOf_or {except : List String} {left right : List Value}
    (h : ∀ v, v ∈ us ↔ v ∈ left ∨ v ∈ right) : key ∈ t.keysOf except (env.rowsOf t us) ↔
      key ∈ t.keysOf except (env.rowsOf t left) ∨ key ∈ t.keysOf except (env.rowsOf t right) := by
  simp only [Table.mem_keysOf, mem_rowsOf, h, and_or_left, or_and_right, exists_or]

/-- The keys of a union of two graphs, with one another in any order and as often as one likes, are those of
either graph. -/
theorem describedBy_unions [RegexLibrary] [Summation] {lhs rhs : String} {graphs : List GraphRef}
    {annotations : Element → Table} {left right : Element → List Value}
    (ht : ∀ e, env.IsAnnotationTable s.database e (annotations e))
    (htarget : env.FreshFor s.database target tables [.base, .named lhs, .named rhs])
    (hl : ∀ e, env.Holds s.database (.named lhs) e (left e)) (hl' : ∀ e, .null ∉ left e)
    (hr : ∀ e, env.Holds s.database (.named rhs) e (right e)) (hr' : ∀ e, .null ∉ right e)
    (hgraphs : ∀ g, g ∈ graphs ↔ g = .named lhs ∨ g = .named rhs) :
    env.Succeeds s (unions target graphs) ∧ ∃ keys,
      env.DescribedBy (env.issueAll s (unions target graphs)) (.named target) keys ∧
      ∀ e key, key ∈ keys e ↔
        key ∈ (annotations e).keysOf (env.schema.ownColumns e) (env.rowsOf (annotations e) (left e)) ∨
        key ∈ (annotations e).keysOf (env.schema.ownColumns e) (env.rowsOf (annotations e) (right e)) := by
  have hids : ∀ g ∈ graphs, env.HoldsIds s.database g := by
    intro g hg e
    obtain rfl | rfl := (hgraphs g).mp hg
    · exact ⟨_, hl e, hl' e⟩
    · exact ⟨_, hr e, hr' e⟩
  have hsources : graphs ⊆ [.base, .named lhs, .named rhs] := fun g hg =>
    List.mem_cons_of_mem _ (by simpa using (hgraphs g).mp hg)
  obtain ⟨hsucceeds, hlists, hsame⟩ :=
    issueAll_unions graphs htarget hsources hids htarget.listsOnce fun _ => id
  generalize env.issueAll s (unions target graphs) = after at hlists hsame ⊢
  have ht' (e : Element) : env.IsAnnotationTable after.database e (annotations e) :=
    (ht e).of_find? (htarget.annotations_of_same (by simp) hsame e)
  choose us hholds _ hus using hlists
  refine ⟨hsucceeds, _, describedBy_named ht' fun e => ⟨tables, htarget.resolves, hholds e⟩,
    fun e key => mem_keysOf_rowsOf_or fun v => ?_⟩
  simp only [hus, hgraphs, false_or, exists_eq_or_imp, exists_eq_left, (hl e).hasId_iff, (hr e).hasId_iff]

/-- A graph is described by the keys of what is exported from it, if no two rows are exported under one id.
These keys are among those of the base graph, and the keys of a union are those of either graph. -/
theorem description_exact [RegexLibrary] [Summation] (h : env.Exportable s.database) :
    (∀ name, (∀ e, ∃ us, env.Holds s.database (.named name) e us) → ∃ keys vs es,
      env.DescribedBy s (.named name) keys ∧
      env.outcome s (.exportVertices (.named name)) = .ok (.vertices vs) ∧
      env.outcome s (.exportEdges (.named name)) = .ok (.edges es) ∧
      (∀ e key, IsCarried vs es e key → key ∈ keys e) ∧
      (∀ e, env.ToldApart s.database e → ∀ key ∈ keys e, IsCarried vs es e key) ∧
      ∃ all, env.DescribedBy s .base all ∧ ∀ e, keys e ⊆ all e) ∧
    ∀ lhs rhs target tables graphs,
      env.FreshFor s.database target tables [.base, .named lhs, .named rhs] →
      env.HoldsIds s.database (.named lhs) → env.HoldsIds s.database (.named rhs) →
      (∀ g, g ∈ graphs ↔ g = .named lhs ∨ g = .named rhs) →
      env.Succeeds s (unions target graphs) ∧ ∃ keys left right,
        env.DescribedBy (env.issueAll s (unions target graphs)) (.named target) keys ∧
        env.DescribedBy s (.named lhs) left ∧ env.DescribedBy s (.named rhs) right ∧
        ∀ e key, key ∈ keys e ↔ key ∈ left e ∨ key ∈ right e := by
  choose annotations ht using h.ids.exists_annotationTable
  refine ⟨fun name hg => ?_, fun lhs rhs target tables graphs htarget hids hids' hgraphs => ?_⟩
  · choose us hus using hg
    have hcarried := env.isCarried_exports annotations (fun e => env.rowsOf (annotations e) (us e))
      rfl rfl
    refine ⟨_, _, _, describedBy_named ht hus, outcome_exportVertices (ht .vertex) (hus .vertex),
      outcome_exportEdges (ht .edge) (hus .edge) h.reserved (h.ends _ (ht .edge).found),
      fun e => (hcarried e).1, fun e hapart => (hcarried e).2 (hapart.nodup_rowsOf (ht e) _),
      _, describedBy_base ht, fun e key hkey => (List.mem_filter.mp hkey).1⟩
  · choose left hl hl' using hids
    choose right hr hr' using hids'
    obtain ⟨hsucceeds, keys, hkeys, hmem⟩ := describedBy_unions ht htarget hl hl' hr hr' hgraphs
    exact ⟨hsucceeds, keys, _, _, hkeys, describedBy_named ht hl, describedBy_named ht hr, hmem⟩

end Environment
namespace SmallWorld

open Environment

theorem annotated_toldApart (e : Element) : environment.ToldApart annotated.database e := by
  intro vs hvs
  obtain rfl := hvs.unique (annotated_holds (by simp) e)
  rw [List.map_map]
  cases e <;> decide

/-- The vertex and the edge of `src` have a key each, and a union with `dst` adds none. -/
theorem description_exact_annotated :
    let steps := unions "out" [.named "dst", .named "src", .named "dst"]
    (∃ keys, environment.DescribedBy annotated (.named "src") keys ∧
      (∀ key, key ∈ keys .vertex ↔ key = "k") ∧ ∀ key, key ∈ keys .edge ↔ key = "n") ∧
    environment.Succeeds annotated steps ∧
    ∃ keys, environment.DescribedBy (environment.issueAll annotated steps) (.named "out") keys ∧
      (∀ key, key ∈ keys .vertex ↔ key = "k") ∧ ∀ key, key ∈ keys .edge ↔ key = "n" := by
  obtain ⟨hexports, hunions⟩ := description_exact annotated_exportable
  obtain ⟨keys, vs, es, hkeys, hvertices, hedges, hcarried, hall, -⟩ :=
    hexports "src" fun e => ⟨_, annotated_holds (by simp) e⟩
  obtain rfl : vs = [⟨"a", ⟨[("k", "x")]⟩⟩] :=
    Answer.vertices.inj (Except.ok.inj (hvertices.symm.trans rfl))
  obtain rfl : es = [⟨"e", "a", "b", ⟨[("n", "1")]⟩⟩] :=
    Answer.edges.inj (Except.ok.inj (hedges.symm.trans rfl))
  have hsrc (e : Element) (key : String) : key ∈ keys e ↔ IsCarried _ _ e key :=
    ⟨hall e (annotated_toldApart e) key, hcarried e key⟩
  have hdst : environment.DescribedBy annotated (.named "dst") fun _ => [] := rfl
  obtain ⟨hsucceeds, keys', left, right, hkeys', hleft, hright, hmem⟩ :=
    hunions "src" "dst" "out" _ [.named "dst", .named "src", .named "dst"] (annotated_fresh (by simp))
      (annotated_holdsIds (by simp)) (annotated_holdsIds (by simp)) (by grind)
  obtain rfl := hleft.unique hkeys
  obtain rfl := hright.unique hdst
  have hout (e : Element) (key : String) : key ∈ keys' e ↔ key ∈ left e := by simp [hmem]
  have hone (k text key : String) : (⟨[(k, text)]⟩ : Annotations).contains key = true ↔ key = k := by
    have hlist : (⟨[(k, text)]⟩ : Annotations) = .ofList [(k, text)] := rfl
    rw [hlist, Annotations.contains_ofList, List.map_singleton, List.mem_singleton]
  have hvertex (key : String) : key ∈ left .vertex ↔ key = "k" := by
    simp only [hsrc, IsCarried, List.mem_singleton, exists_eq_left, hone]
  have hedge (key : String) : key ∈ left .edge ↔ key = "n" := by
    simp only [hsrc, IsCarried, List.mem_singleton, exists_eq_left, hone]
  exact ⟨⟨left, hkeys, hvertex, hedge⟩, hsucceeds, keys', hkeys',
    fun key => (hout _ key).trans (hvertex key), fun key => (hout _ key).trans (hedge key)⟩

/-- Something for each of the two kinds. -/
def byKind {α : Type} (forVertices forEdges : α) : Element → α
  | .vertex => forVertices
  | .edge => forEdges

/-- Two vertices that are exported under one id. -/
def sameTexts : List Row :=
  [⟨[("hash", infinity), ("j", .text "x")]⟩, ⟨[("hash", .text "inf"), ("k", .text "y")]⟩]

/-- The annotated world with a null in `dst`, next to which a union adds nothing. -/
def nullListed : Store :=
  { annotated with
    database := annotated.database.put (tables "dst").vertices
      ⟨environment.schema.idColumns, [⟨[("hash", .null)]⟩]⟩ }

/-- Of two vertices that are exported under one id the keys are described, though one of the vertices is not
exported. In a union nothing comes after a null. -/
theorem not_description_exact :
    (numbers.Exportable (numbering sameTexts).database ∧
      (∀ g ∈ [.base, .named "src"],
        numbers.Holds (numbering sameTexts).database g .vertex [infinity, .text "inf"] ∧
        numbers.Holds (numbering sameTexts).database g .edge []) ∧
      numbers.DescribedBy (numbering sameTexts) (.named "src") (byKind ["j", "k"] []) ∧
      numbers.outcome (numbering sameTexts) (.exportVertices (.named "src")) =
        .ok (.vertices [⟨"inf", ⟨[("k", "y")]⟩⟩])) ∧
    let steps := unions "out" [.named "dst", .named "src"]
    (∀ e, environment.IsAnnotationTable nullListed.database e (annotationTables e)) ∧
      environment.Succeeds nullListed steps ∧
      environment.DescribedBy nullListed (.named "src") (byKind ["k"] ["n"]) ∧
      environment.DescribedBy (environment.issueAll nullListed steps) (.named "out")
        (byKind [] ["n"]) := by
  have hrows : Affinity.integer.Keeps (sameTexts.map (·.get "hash")) := by
    simp only [sameTexts, List.map_cons, List.map_nil, Affinity.Keeps]
    decide
  refine ⟨⟨numbering_exportable hrows (by decide), fun g hg =>
    ⟨numbering_holds_vertices hrows hg, numbering_holds_edges _ hg⟩, rfl, rfl⟩, ?_⟩
  intro steps
  have hannotations (e : Element) :
      environment.IsAnnotationTable nullListed.database e (annotationTables e) :=
    ⟨by cases e <;> rfl, (annotated_isAnnotationTable e).keeps, (annotated_isAnnotationTable e).ids⟩
  -- the unions sort what they insert, so that the tables have to be computed and are not read off
  let after := (environment.issueAll nullListed steps).database
  have hfound : (∀ e ∈ [Element.vertex, .edge],
        after.find? (environment.schema.annotationTable e) = some (annotationTables e)) ∧
      after.find? (tables "out").vertices =
        some ⟨environment.schema.idColumns, [⟨[("hash", .null)]⟩]⟩ ∧
      after.find? (tables "out").edges =
        some ⟨environment.schema.idColumns, [⟨[("hash", .text "e")]⟩]⟩ := by decide +kernel
  have hafter (e : Element) : environment.IsAnnotationTable after e (annotationTables e) :=
    ⟨hfound.1 e (by cases e <;> simp), (annotated_isAnnotationTable e).keeps,
      (annotated_isAnnotationTable e).ids⟩
  have hvertices : environment.Holds after (.named "out") .vertex [.null] := by
    refine ⟨tables "out", resolve_eq (by simp), _, hfound.2.1, ⟨rfl, rfl, fun v hv => ?_⟩, rfl⟩
    obtain rfl := List.mem_singleton.mp hv
    rfl
  have hedges : environment.Holds after (.named "out") .edge [.text "e"] :=
    ⟨tables "out", resolve_eq (by simp),
      Schema.lists_texts idAffinity_eq hfound.2.2 rfl rfl ["e"] rfl⟩
  have hout (e : Element) :
      environment.Holds after (.named "out") e (byKind [.null] [.text "e"] e) := by
    cases e with
    | vertex => exact hvertices
    | edge => exact hedges
  exact ⟨hannotations, ⟨by rfl, by rfl, trivial⟩, rfl, (describedBy_named hafter hout).trans rfl⟩

end SmallWorld
end Provenance
