-- SUMMARY: Exported ids given to a fresh target make the same graph.
import Provenance.Proofs.Exports

/-!
# Exported ids given back

Exports name elements by texts, and elements are given by texts. What is exported from a graph and given
to a fresh target makes the same graph of it, if the column of ids makes of each text the id that it was
written for. Every text is read so; a number may have a text that is none.
-/
namespace Provenance

open Program

/-- The column of ids makes of the text of an id that id again. -/
def Schema.ReadsBack (schema : Schema) (v : Value) : Prop :=
  schema.idAffinity.store (.text v.label) = v

instance (schema : Schema) (v : Value) : Decidable (schema.ReadsBack v) :=
  inferInstanceAs (Decidable (_ = _))

/-- What is written to one table of a pair leaves all tables but the two. -/
theorem Database.SameBut.of_part {tables : TablePair} {e : Element} {db db' : Database}
    (h : SameBut [tables.part e] db db') : SameBut [tables.vertices, tables.edges] db db' :=
  h.mono (by cases e <;> simp)

/-- Some list gives the id to the elements of the kind. -/
def IsGiven (given : List (Element × List String)) (e : Element) (id : String) : Prop :=
  ∃ part ∈ given, part.1 = e ∧ id ∈ part.2

theorem isGiven_cons {part : Element × List String} {given : List (Element × List String)}
    {e : Element} {id : String} :
    IsGiven (part :: given) e id ↔ (part.1 = e ∧ id ∈ part.2) ∨ IsGiven given e id := by
  simp [IsGiven]

/-- One insertion for each list of ids, in the order of the lists. -/
def insertions (target : String) (given : List (Element × List String)) : List Instruction :=
  given.map fun part => .insertGiven part.1 (.named target) part.2

namespace Environment

variable {env : Environment} {s : Store} {before db : Database} {target : String}
  {tables : TablePair} {g : GraphRef} {e : Element} {v : Value} {p : Element → Value → Prop}
  {given : List (Element × List String)}

/-! ## Runs of insertions -/

/-- The element is found by one of the given ids. -/
def IsFound (env : Environment) (db : Database) (given : List (Element × List String)) (e : Element)
    (v : Value) : Prop :=
  env.HasId db .base e v ∧ ∃ id, IsGiven given e id ∧ id.length ≤ longestGivenId ∧
    env.schema.idAffinity.store (.text id) = v

theorem isFound_cons {part : Element × List String} : env.IsFound db (part :: given) e v ↔
    env.IsFound db [part] e v ∨ env.IsFound db given e v := by
  have hnil (id : String) : ¬ IsGiven [] e id := by simp [IsGiven]
  simp only [IsFound, isGiven_cons, hnil, or_false, ← and_or_left, or_and_right, exists_or]

theorem IsFound.ne_null (h : env.IsFound db given e v) (hids : env.HoldsIds db .base) : v ≠ .null :=
  hids.ne_null h.1

/-- The tables of a target that was fresh once list these ids now, and insertions can go on. -/
structure Filled (env : Environment) (before : Database) (target : String) (tables : TablePair)
    (s : Store) (p : Element → Value → Prop) : Prop where
  fresh : env.FreshFor before target tables [.base]
  scratch : s.CanScratch
  base : env.HoldsIds s.database .base
  lists : ∀ e, env.schema.ListsOnce s.database (tables.part e) (p e)
  ids : ∀ e, ¬ p e .null

namespace Filled

variable (h : env.Filled before target tables s p)

include h

theorem congr {q : Element → Value → Prop} (hpq : ∀ e v, p e v ↔ q e v) :
    env.Filled before target tables s q := by
  obtain rfl : p = q := funext fun e => funext fun v => propext (hpq e v)
  exact h

theorem isFound_of_same (hsame : Database.SameBut [tables.vertices, tables.edges] s.database db) :
    env.IsFound db given e v ↔ env.IsFound s.database given e v :=
  and_congr_left fun _ => h.fresh.hasId_of_same (by simp) hsame h.base

/-- One insertion adds what is found by its ids. -/
theorem insertGiven [RegexLibrary] [Summation] (part : Element × List String) :
    let i : Instruction := .insertGiven part.1 (.named target) part.2
    env.outcome s i = .ok .done ∧
      env.Filled before target tables (env.issue s i)
        (fun e v => p e v ∨ env.IsFound s.database [part] e v) ∧
      Database.SameBut [tables.part part.1] s.database (env.issue s i).database := by
  intro i
  obtain ⟨e, ids⟩ := part
  obtain ⟨present, hpresent, -⟩ := h.base e
  obtain ⟨hdone, hlists, hsame, hstem⟩ := outcome_of_wp (i := i) rfl
    (wp_insertGiven_more h.scratch h.fresh.resolves (h.lists e) (h.ids e)
      hpresent.annotations)
  have hsame' : Database.SameBut [tables.vertices, tables.edges] s.database (env.issue s i).database :=
    hsame.of_part
  refine ⟨hdone, ⟨h.fresh, ?_, h.fresh.holdsIds_of_same (by simp) hsame' h.base, fun e' => ?_,
    fun e' => ?_⟩, hsame⟩
  · rw [Store.CanScratch, hstem]
    exact h.scratch
  · by_cases he : e' = e
    · subst he
      refine hlists.congr fun v => or_congr_right ?_
      simp [IsFound, IsGiven, hpresent.hasId_iff]
    · have hne : Name.folded (tables.part e') ≠ Name.folded (tables.part e) := by
        cases e <;> cases e' <;>
          first | exact absurd rfl he | exact h.fresh.parts | exact h.fresh.parts.symm
      refine ((h.lists e').of_same hsame (by simpa using hne)).congr fun v => ?_
      refine (or_iff_left_of_imp fun hfound => ?_).symm
      obtain ⟨-, _, ⟨_, hpart, rfl, -⟩, -⟩ := hfound
      exact absurd (congrArg Prod.fst (List.mem_singleton.mp hpart)) he
  · rintro (hnull | hnull)
    · exact h.ids e' hnull
    · exact hnull.ne_null h.base rfl

/-- A table that lists the same ids after an insertion as before has got no row. -/
theorem find?_insertGiven [RegexLibrary] [Summation] (part : Element × List String)
    (hfound : ∀ e v, env.IsFound s.database [part] e v → p e v) (name : String) :
    (env.issue s (.insertGiven part.1 (.named target) part.2)).database.find? name =
      s.database.find? name := by
  obtain ⟨-, hfilled, hsame⟩ := h.insertGiven part
  by_cases hname : Name.folded name = Name.folded (tables.part part.1)
  · obtain ⟨vs, ⟨t, ht, hkeeps, rfl⟩, hnodup, hvs⟩ := h.lists part.1
    obtain ⟨_, ⟨t', ht', -, rfl⟩, hnodup', hvs'⟩ := hfilled.lists part.1
    obtain ⟨more, hmore⟩ := env.issue_grows
      (i := .insertGiven part.1 (.named target) part.2) rfl ht
    obtain rfl := Option.some.inj (ht'.symm.trans hmore)
    -- both lists have the same ids, each once, so that the one is as long as the other
    have hperm : (t.values env.schema.idColumn).Perm ((t.append more).values env.schema.idColumn) := by
      refine (List.perm_ext_iff_of_nodup hnodup hnodup').mpr fun v => ?_
      rw [hvs, hvs']
      exact (or_iff_left_of_imp (hfound part.1 v)).symm
    have hnone : more = [] := by
      have hlength := hperm.length_eq
      simp only [Table.values, Table.append, List.length_map, List.length_append] at hlength
      exact List.length_eq_zero_iff.mp (by omega)
    have hfind {db : Database} : db.find? name = db.find? (tables.part part.1) := by
      rw [Database.find?, Database.find?, hname]
    rw [hfind, hfind, ht, hmore, hnone, Table.append, List.append_nil]
  · exact hsame name (by simpa using hname)

end Filled

/-- Insertions add what is found by any of their ids, in whatever order they come. -/
theorem issueAll_insertions [RegexLibrary] [Summation] (h : env.Filled before target tables s p) :
    let steps := insertions target given
    env.Succeeds s steps ∧
      env.Filled before target tables (env.issueAll s steps)
        (fun e v => p e v ∨ env.IsFound s.database given e v) ∧
      Database.SameBut [tables.vertices, tables.edges] s.database
        (env.issueAll s steps).database := by
  induction given generalizing s p with
  | nil =>
    have hnone (e : Element) (v : Value) : ¬ env.IsFound s.database [] e v := by
      simp [IsFound, IsGiven]
    exact ⟨trivial, h.congr fun e v => by simp [hnone], .refl _ _⟩
  | cons part given ih =>
    obtain ⟨hdone, hfilled, hsame⟩ := h.insertGiven part
    have hsame := hsame.of_part
    obtain ⟨hsucceeds, hfilled', hsame'⟩ := ih hfilled
    refine ⟨⟨hdone, hsucceeds⟩, hfilled'.congr fun e v => ?_, hsame.trans hsame'⟩
    -- the annotations are those of the beginning for all insertions
    rw [h.isFound_of_same hsame, or_assoc, ← isFound_cons]

/-- Insertions by which nothing new is found leave every table as it is. -/
theorem find?_insertions [RegexLibrary] [Summation] (h : env.Filled before target tables s p)
    (hfound : ∀ e v, env.IsFound s.database given e v → p e v) (name : String) :
    (env.issueAll s (insertions target given)).database.find? name = s.database.find? name := by
  induction given generalizing s with
  | nil => rfl
  | cons part given ih =>
    have hfirst : ∀ e v, env.IsFound s.database [part] e v → p e v := fun e v hv =>
      hfound e v (isFound_cons.mpr (.inl hv))
    obtain ⟨-, hfilled, hsame⟩ := h.insertGiven part
    have hsame := hsame.of_part
    have hrest := ih (hfilled.congr fun e v => or_iff_left_of_imp (hfirst e v)) fun e v hv =>
      hfound e v (isFound_cons.mpr (.inr ((h.isFound_of_same hsame).mp hv)))
    exact hrest.trans (h.find?_insertGiven part hfirst name)

/-! ## The exports of a graph and of its copy -/

/-- The ids under which elements are exported. -/
def exportedIds (vs : List Vertex) (es : List Edge) : Element → List String
  | .vertex => vs.map (·.id)
  | .edge => es.map (·.id)

/-- A graph is exported, under the texts of those ids of its that are among the annotations. -/
theorem exists_exports [RegexLibrary] [Summation]
    (h : env.Exportable s.database) (hg : env.HoldsIds s.database g) :
    ∃ vs es, env.outcome s (.exportVertices g) = .ok (.vertices vs) ∧
      env.outcome s (.exportEdges g) = .ok (.edges es) ∧
      ∀ e id, id ∈ exportedIds vs es e ↔
        ∃ v, env.HasId s.database g e v ∧ env.HasId s.database .base e v ∧ v.label = id := by
  obtain ⟨tv, htv⟩ := h.ids.exists_annotationTable .vertex
  obtain ⟨te, hte⟩ := h.ids.exists_annotationTable .edge
  obtain ⟨us, hus, -⟩ := hg .vertex
  obtain ⟨us', hus', -⟩ := hg .edge
  refine ⟨_, _, outcome_exportVertices htv hus,
    outcome_exportEdges hte hus' h.reserved (h.ends te hte.found), fun e id => ?_⟩
  have hrows {t : Table} {us : List Value} (ht : env.IsAnnotationTable s.database e t)
      (hus : env.Holds s.database g e us) :
      (∃ r ∈ env.rowsOf t us, (r.get env.schema.idColumn).label = id) ↔
        ∃ v, env.HasId s.database g e v ∧ env.HasId s.database .base e v ∧ v.label = id := by
    simp only [mem_rowsOf, hus.hasId_iff, ht.holds_base.hasId_iff, Table.values, List.mem_map]
    constructor
    · rintro ⟨r, ⟨hr, hin⟩, hlabel⟩
      exact ⟨_, hin, ⟨r, hr, rfl⟩, hlabel⟩
    · rintro ⟨_, hin, ⟨r, hr, rfl⟩, hlabel⟩
      exact ⟨r, ⟨hr, hin⟩, hlabel⟩
  cases e with
  | vertex =>
    rw [exportedIds, mem_ids_distinctVertices, List.map_map, List.mem_map, ← hrows htv hus]
    rfl
  | edge =>
    rw [exportedIds, mem_ids_distinctEdges, List.map_map, List.mem_map, ← hrows hte hus']
    rfl

/-- Two graphs of the same ids have the same exports, also if one was filled after the other was
exported. -/
theorem exports_eq [RegexLibrary] [Summation]
    {s' : Store} {g' : GraphRef} (h : env.Exportable s.database)
    (hg : env.HoldsIds s.database g) (hg' : env.HoldsIds s'.database g')
    (hannotations : ∀ e, s'.database.find? (env.schema.annotationTable e) =
      s.database.find? (env.schema.annotationTable e))
    (hids : ∀ e v, env.HasId s'.database g' e v ↔ env.HasId s.database g e v) :
    env.outcome s' (.exportVertices g') = env.outcome s (.exportVertices g) ∧
      env.outcome s' (.exportEdges g') = env.outcome s (.exportEdges g) := by
  have hrows (e : Element) : ∃ t us us', env.IsAnnotationTable s.database e t ∧
      env.IsAnnotationTable s'.database e t ∧ env.Holds s.database g e us ∧
      env.Holds s'.database g' e us' ∧ env.rowsOf t us' = env.rowsOf t us := by
    obtain ⟨t, ht⟩ := h.ids.exists_annotationTable e
    obtain ⟨us, hus, -⟩ := hg e
    obtain ⟨us', hus', -⟩ := hg' e
    refine ⟨t, us, us', ht, ht.of_find? (hannotations e), hus, hus',
      rowsOf_congr fun v => ?_⟩
    rw [← hus.hasId_iff, ← hus'.hasId_iff, hids]
  obtain ⟨tv, us, us', htv, htv', hus, hus', heq⟩ := hrows .vertex
  obtain ⟨te, ws, ws', hte, hte', hws, hws', heq'⟩ := hrows .edge
  have hends := h.ends te hte.found
  rw [outcome_exportVertices htv' hus', outcome_exportVertices htv hus, heq,
    outcome_exportEdges hte' hws' h.reserved hends, outcome_exportEdges hte hws h.reserved hends, heq']
  exact ⟨rfl, rfl⟩

/-- Every id that was exported is given, and other ids only if they are those of no element. -/
structure GivesBack (env : Environment) (db : Database) (exported : Element → List String)
    (given : List (Element × List String)) : Prop where
  all : ∀ e, ∀ id ∈ exported e, IsGiven given e id
  others : ∀ e id, IsGiven given e id →
    id ∈ exported e ∨ ¬ env.HasId db .base e (env.schema.idAffinity.store (.text id))

theorem readsBack_of_text {schema : Schema} {text : String}
    (h : schema.idAffinity.store (.text text) = .text text) : schema.ReadsBack (.text text) := h

/-- What is given back finds the elements of the graph and no others. -/
theorem GivesBack.isFound_iff {exported : Element → List String}
    (h : env.GivesBack db exported given)
    (hexported : ∀ e id, id ∈ exported e ↔ ∃ v, env.HasId db g e v ∧ v.label = id)
    (hknown : ∀ e v, env.HasId db g e v → env.HasId db .base e v)
    (hread : ∀ e v, env.HasId db g e v → env.schema.ReadsBack v)
    (hshort : ∀ e v, env.HasId db g e v → v.label.length ≤ longestGivenId) :
    env.IsFound db given e v ↔ env.HasId db g e v := by
  constructor
  · rintro ⟨hbase, id, hgiven, -, rfl⟩
    -- an id that some element has is one that was exported
    obtain hid | hnone := h.others e id hgiven
    · obtain ⟨v, hv, rfl⟩ := (hexported e id).mp hid
      rwa [hread e v hv]
    · exact absurd hbase hnone
  · intro hv
    have hid : v.label ∈ exported e := (hexported e v.label).mpr ⟨v, hv, rfl⟩
    exact ⟨hknown e v hv, v.label, h.all e _ hid, hshort e v hv, hread e v hv⟩

/-- A graph is exported and given back to a fresh target by the ids it was exported under, in any order, in
any number of insertions and as often as one likes, among others that nothing has. Then the target has the
ids of the graph, its exports are those of the graph, and to give the ids again changes nothing. -/
theorem exported_given_back [RegexLibrary] [Summation]
    (h : env.Exportable s.database) (hscratch : s.CanScratch)
    (htarget : env.FreshFor s.database target tables [g, .base]) (hg : env.HoldsIds s.database g)
    (hknown : ∀ e v, env.HasId s.database g e v → env.HasId s.database .base e v)
    (hread : ∀ e v, env.HasId s.database g e v → (∃ text, v = .text text) ∨ env.schema.ReadsBack v)
    (hshort : ∀ e v, env.HasId s.database g e v → v.label.length ≤ longestGivenId) :
    ∃ vs es, env.outcome s (.exportVertices g) = .ok (.vertices vs) ∧
      env.outcome s (.exportEdges g) = .ok (.edges es) ∧
      ∀ given, env.GivesBack s.database (exportedIds vs es) given →
        let steps := insertions target given
        let after := env.issueAll s steps
        env.Succeeds s steps ∧
        (∀ e, env.schema.ListsOnce after.database (tables.part e) (env.HasId s.database g e)) ∧
        env.outcome after (.exportVertices (.named target)) = .ok (.vertices vs) ∧
        env.outcome after (.exportEdges (.named target)) = .ok (.edges es) ∧
        ∀ again, env.GivesBack s.database (exportedIds vs es) again →
          env.Succeeds after (insertions target again) ∧
          ∀ name, (env.issueAll after (insertions target again)).database.find? name =
            after.database.find? name := by
  have hread (e : Element) (v : Value) (hv : env.HasId s.database g e v) : env.schema.ReadsBack v := by
    obtain ⟨text, rfl⟩ | hback := hread e v hv
    · obtain ⟨us, hholds, hin⟩ := hknown e _ hv
      exact readsBack_of_text (hholds.keeps _ hin)
    · exact hback
  obtain ⟨vs, es, hvertices, hedges, hids⟩ := exists_exports h hg
  have hexported (e : Element) (id : String) :
      id ∈ exportedIds vs es e ↔ ∃ v, env.HasId s.database g e v ∧ v.label = id := by
    rw [hids]
    exact exists_congr fun v => and_congr_right fun hv => and_iff_right (hknown e v hv)
  refine ⟨vs, es, hvertices, hedges, fun given hgiven => ?_⟩
  intro steps after
  have hstart : env.Filled s.database target tables s fun _ _ => False :=
    ⟨htarget.of_subset (by simp), hscratch, h.ids, htarget.listsOnce, fun _ => id⟩
  obtain ⟨hsucceeds, hfilled, hsame⟩ : env.Succeeds s steps ∧ _ := issueAll_insertions hstart
  -- what is found from nothing is the graph, and the graph is found again with nothing new
  have hfilled := hfilled.congr fun e v => (iff_of_eq (false_or _)).trans
    (hgiven.isFound_iff hexported hknown hread hshort)
  obtain ⟨hcopy, hmem⟩ := holdsIds_of_listsOnce htarget.resolves hfilled.lists hfilled.ids
  have hannotations := htarget.annotations_of_same (by simp) hsame
  obtain ⟨hvertices', hedges'⟩ := exports_eq h hg hcopy hannotations hmem
  refine ⟨hsucceeds, hfilled.lists, hvertices'.trans hvertices, hedges'.trans hedges,
    fun again hagain => ⟨(issueAll_insertions hfilled).1, find?_insertions hfilled fun e v hv => ?_⟩⟩
  exact (hagain.isFound_iff hexported hknown hread hshort).mp ((hstart.isFound_of_same hsame).mp hv)

end Environment

namespace SmallWorld

open Environment

/-- The vertex and the edge of `src` are given back, one of them twice and both among others. -/
theorem exported_given_back_annotated :
    let steps := insertions "out" [(.edge, ["nowhere", "e"]), (.vertex, ["a"]), (.vertex, ["e", "a"])]
    let after := environment.issueAll annotated steps
    environment.Succeeds annotated steps ∧
      environment.schema.ListsOnce after.database (tables "out").vertices (· = .text "a") ∧
      environment.outcome after (.exportVertices (.named "out")) =
        .ok (.vertices [⟨"a", ⟨[("k", "x")]⟩⟩]) ∧
      environment.outcome after (.exportEdges (.named "out")) =
        .ok (.edges [⟨"e", "a", "b", ⟨[("n", "1")]⟩⟩]) := by
  have hids {g : GraphRef} (hg : g ∈ [.base, .named "src", .named "dst"]) (e : Element) (v : Value) :
      environment.HasId annotated.database g e v ↔ ∃ id ∈ annotatedIds g e, .text id = v :=
    (annotated_holds hg e).hasId_iff.trans List.mem_map
  have hsrc : ∀ e, ∀ id ∈ annotatedIds (.named "src") e,
      id ∈ annotatedIds .base e ∧ id.length ≤ longestGivenId := by
    intro e
    cases e <;> decide
  obtain ⟨vs, es, hvertices, hedges, hback⟩ := exported_given_back annotated_exportable
    (holding_canScratch ..) (annotated_fresh (by decide))
    (annotated_holdsIds (g := .named "src") (by simp))
    (fun e v hv => by
      obtain ⟨id, hid, rfl⟩ := (hids (g := .named "src") (by simp) e v).mp hv
      exact (hids (by simp) e _).mpr ⟨id, (hsrc e id hid).1, rfl⟩)
    (fun e v hv => by
      obtain ⟨id, _, rfl⟩ := (hids (by simp) e v).mp hv
      exact .inl ⟨id, rfl⟩)
    (fun e v hv => by
      obtain ⟨id, hid, rfl⟩ := (hids (by simp) e v).mp hv
      exact (hsrc e id hid).2)
  obtain rfl : vs = [⟨"a", ⟨[("k", "x")]⟩⟩] :=
    Answer.vertices.inj (Except.ok.inj (hvertices.symm.trans rfl))
  obtain rfl : es = [⟨"e", "a", "b", ⟨[("n", "1")]⟩⟩] :=
    Answer.edges.inj (Except.ok.inj (hedges.symm.trans rfl))
  have hgiven : environment.GivesBack annotated.database
      (exportedIds [⟨"a", ⟨[("k", "x")]⟩⟩] [⟨"e", "a", "b", ⟨[("n", "1")]⟩⟩])
      [(.edge, ["nowhere", "e"]), (.vertex, ["a"]), (.vertex, ["e", "a"])] := by
    refine ⟨fun e => ?_, fun e id hid => ?_⟩
    · cases e <;> simp [exportedIds, IsGiven]
    · rw [hids (by simp), idAffinity_eq]
      cases e <;> simp [exportedIds, IsGiven, annotatedIds, Affinity.store, Value.asText] at hid ⊢ <;>
        grind
  obtain ⟨hsucceeds, hlists, hvertices', hedges', -⟩ := hback _ hgiven
  refine ⟨hsucceeds, (hlists .vertex).congr fun v => ?_, hvertices', hedges'⟩
  rw [hids (by simp)]
  simp [annotatedIds, eq_comm]

/-- An infinite number is exported under a text that no column makes a number of. Given that text back, the
target stays empty. -/
theorem not_exported_given_back_infinite :
    let rows : List Row := [⟨[("hash", infinity), ("j", .text "x")]⟩]
    let s := numbering rows
    let i : Instruction := .insertGiven .vertex (.named "out") ["inf"]
    infinity = numbers.schema.idAffinity.store (.text "1e400") ∧
      numbers.Exportable s.database ∧ s.CanScratch ∧
      numbers.Fresh s.database "out" (tables "out") ∧
      (∀ g ∈ [.base, .named "src"], numbers.Holds s.database g .vertex [infinity] ∧
        numbers.Holds s.database g .edge []) ∧
      infinity.label.length ≤ longestGivenId ∧
      numbers.outcome s (.exportVertices (.named "src")) =
        .ok (.vertices [⟨"inf", ⟨[("j", "x")]⟩⟩]) ∧
      numbers.outcome s i = .ok .done ∧
      numbers.schema.ListsOnce (numbers.issue s i).database (tables "out").vertices fun _ => False := by
  intro rows s i
  have hrows : Affinity.integer.Keeps (rows.map (·.get "hash")) := by
    simp only [rows, List.map_cons, List.map_nil, Affinity.Keeps]
    decide
  have hfresh := numbering_fresh rows
  have hbase := numbering_holds_vertices hrows (g := .base) (by simp)
  obtain ⟨hdone, hlists, -⟩ := outcome_of_wp (i := i) rfl (wp_insertGiven_more
    (numbering_canScratch rows) hfresh.resolves (hfresh.listsOnce .vertex) id hbase.annotations)
  refine ⟨infinity_eq_store, numbering_exportable hrows (by decide), numbering_canScratch rows, hfresh,
    fun g hg => ⟨numbering_holds_vertices hrows hg, numbering_holds_edges rows hg⟩, by decide, rfl,
    hdone, hlists.congr fun v => ?_⟩
  -- the text stays a text, and the only vertex is a number
  have hother : numbers.schema.idAffinity.store (.text "inf") ≠ infinity := by decide
  simp only [rows, List.map_cons, List.map_nil, List.mem_singleton, exists_eq_left, false_or, iff_false]
  rintro ⟨rfl, -, heq⟩
  exact hother heq

end SmallWorld
end Provenance
