-- SUMMARY: The laws of sets for copies, unions, intersections and differences of graphs.
import Provenance.Proofs.Conjunctions
import Provenance.Proofs.InducedSubgraph

/-!
# Set operations on graphs

Copies, unions, intersections and differences of graphs are those of their sets of ids, however often
the graphs list an id. What each operation puts into the tables of its target is said by which ids are
in it; the laws of sets follow.
-/
namespace Provenance

open Program

/-! ## One statement -/

/-- The ids that are selected go into an empty table. -/
theorem Program.wp.insertIds {schema : Schema} {s : Store} {table : String}
    {select : Database → Except Error (List Value)} {new : List Value} {Q : Unit → Store → Prop}
    (ht : schema.ListsOnce s.database table fun _ => False) (hs : select s.database = .ok new)
    (hnew : schema.idAffinity.Keeps new) (hnodup : new.Nodup)
    (hQ : ∀ db, schema.ListsOnce db table (· ∈ new) → Database.SameBut [table] s.database db →
      Q () { s with database := db }) :
    wp (schema.insertIds table select) Q s := by
  obtain ⟨db, hinsert, hlists, hsame⟩ := (ht.lists_nil fun _ => id).insertColumn hnew
  unfold Schema.insertIds
  refine .update ?_ (hQ db ⟨new, hlists, hnodup, fun v => Iff.rfl⟩ hsame)
  rw [hs]
  exact hinsert

namespace Environment

variable {env : Environment} {s : Store} {target : String} {tables : TablePair}
  {g lhs rhs : GraphRef} {sources graphs : List GraphRef} {db db' : Database} {e : Element} {v : Value}
  {p q : Element → Value → Prop}

/-! ## What graphs hold -/

/-- The graph has the id, once or more often. -/
def HasId (env : Environment) (db : Database) (g : GraphRef) (e : Element) (v : Value) : Prop :=
  ∃ us, env.Holds db g e us ∧ v ∈ us

/-- The graph has tables of ids, and none of them is null. -/
def HoldsIds (env : Environment) (db : Database) (g : GraphRef) : Prop :=
  ∀ e, ∃ us, env.Holds db g e us ∧ .null ∉ us

theorem Holds.hasId_iff {us : List Value} (h : env.Holds db g e us) : env.HasId db g e v ↔ v ∈ us := by
  constructor
  · rintro ⟨us', h', hv⟩
    rwa [h.unique h']
  · exact fun hv => ⟨us, h, hv⟩

theorem HoldsIds.resolves (h : env.HoldsIds db g) : ∃ others, env.resolve g = .ok others := by
  obtain ⟨_, ⟨others, hr, -⟩, -⟩ := h .vertex
  exact ⟨others, hr⟩

theorem HoldsIds.ne_null (h : env.HoldsIds db g) (hv : env.HasId db g e v) : v ≠ .null := by
  obtain ⟨us, hholds, hnull⟩ := h e
  rintro rfl
  exact hnull (hholds.hasId_iff.mp hv)

/-! ## Both kinds of elements -/

/-- A fresh target that has no table in common with the graphs that are read. -/
structure FreshFor (env : Environment) (db : Database) (target : String) (tables : TablePair)
    (sources : List GraphRef) : Prop extends env.Fresh db target tables where
  outside : ∀ g ∈ sources, ∀ others, env.resolve g = .ok others → others.Apart tables

/-- Where no two handles have a table in common, a fresh target that is none of the graphs will do. -/
theorem Fresh.freshFor (h : env.Fresh db target tables) (hapart : env.Apart)
    (htarget : .named target ∉ sources) : env.FreshFor db target tables sources := by
  refine ⟨h, fun g hg others hr => hapart (.graph g) (.graph (.named target)) _ _ ?_ hr h.resolves⟩
  rintro heq
  exact htarget (Handle.graph.inj heq ▸ hg)

namespace FreshFor

variable {others : TablePair} {us : List Value}

/-- What is written to the target is not read from the graphs. -/
theorem holds_of_same {before : Database} (h : env.FreshFor before target tables sources)
    (hg : g ∈ sources) (hsame : Database.SameBut [tables.vertices, tables.edges] db db')
    (hholds : env.Holds db g e us) : env.Holds db' g e us :=
  hholds.of_same hsame fun others hr => TablePair.forall_tables (h.outside g hg others hr e)

/-- What a graph has is read from its table, however much of the target has been written. -/
theorem exists_read {before : Database} (h : env.FreshFor before target tables sources)
    (hg : g ∈ sources) (hids : env.HoldsIds db g) (hr : env.resolve g = .ok others)
    (hsame : Database.SameBut [tables.vertices, tables.edges] db db') (e : Element) :
    ∃ us, env.schema.ids db' (others.part e) = .ok ⟨env.schema.idAffinity, us⟩ ∧
      env.schema.idAffinity.Keeps us ∧ .null ∉ us ∧ ∀ v, v ∈ us ↔ env.HasId db g e v := by
  obtain ⟨us, hholds, hnull⟩ := hids e
  obtain ⟨_, hr', hlists⟩ := h.holds_of_same hg hsame hholds
  obtain rfl := Except.ok.inj (hr.symm.trans hr')
  exact ⟨us, hlists.ids, hlists.keeps, hnull, fun v => hholds.hasId_iff.symm⟩

theorem holdsIds_of_same {before : Database} (h : env.FreshFor before target tables sources)
    (hg : g ∈ sources) (hsame : Database.SameBut [tables.vertices, tables.edges] db db')
    (hids : env.HoldsIds db g) : env.HoldsIds db' g := fun e =>
  (hids e).imp fun _ hholds => ⟨h.holds_of_same hg hsame hholds.1, hholds.2⟩

theorem hasId_of_same {before : Database} (h : env.FreshFor before target tables sources)
    (hg : g ∈ sources) (hsame : Database.SameBut [tables.vertices, tables.edges] db db')
    (hids : env.HoldsIds db g) : env.HasId db' g e v ↔ env.HasId db g e v := by
  obtain ⟨us, hholds, -⟩ := hids e
  rw [hholds.hasId_iff, (h.holds_of_same hg hsame hholds).hasId_iff]

theorem of_same (h : env.FreshFor db target tables sources)
    (hsame : Database.SameBut [others.vertices, others.edges] db db') (hapart : others.Apart tables) :
    env.FreshFor db' target tables sources :=
  ⟨h.toFresh.of_same hsame fun e e' => (hapart e' e).symm, h.outside⟩

theorem of_subset {sources' : List GraphRef} (h : env.FreshFor db target tables sources)
    (hsubset : sources' ⊆ sources) : env.FreshFor db target tables sources' :=
  ⟨h.toFresh, fun g hg => h.outside g (hsubset hg)⟩

end FreshFor

/-- Statements that each write to the table for one kind of elements fill those of the kinds for which
there is one, and leave those of the others as they are. -/
theorem wp_eachOnce {elements : List Element} (helements : elements.Nodup)
    {statement : Element → Program Unit}
    (hparts : Name.folded tables.vertices ≠ Name.folded tables.edges)
    (hstart : ∀ e, env.schema.ListsOnce s.database (tables.part e) (p e))
    (hstatement : ∀ e ∈ elements, ∀ s',
      Database.SameBut [tables.vertices, tables.edges] s.database s'.database →
      env.schema.ListsOnce s'.database (tables.part e) (p e) →
      (statement e).wp (fun _ s'' => env.schema.ListsOnce s''.database (tables.part e) (q e) ∧
        Database.SameBut [tables.part e] s'.database s''.database) s') :
    (elements.forM statement).wp (fun _ s' =>
      (∀ e ∈ elements, env.schema.ListsOnce s'.database (tables.part e) (q e)) ∧
      (∀ e ∉ elements, s'.database.find? (tables.part e) = s.database.find? (tables.part e)) ∧
      Database.SameBut [tables.vertices, tables.edges] s.database s'.database) s := by
  have hother {e e' : Element} (h : e' ≠ e) :
      Name.folded (tables.part e') ≠ Name.folded (tables.part e) := by
    cases e <;> cases e' <;> first | exact absurd rfl h | exact hparts | exact hparts.symm
  -- what is done is filled, and what is not is as it was at the start
  refine .forM (fun done s' =>
      (∀ e ∈ done, env.schema.ListsOnce s'.database (tables.part e) (q e)) ∧
      (∀ e ∉ done, s'.database.find? (tables.part e) = s.database.find? (tables.part e)) ∧
      Database.SameBut [tables.vertices, tables.edges] s.database s'.database)
    ⟨by simp, fun _ _ => rfl, .refl _ _⟩ fun done e s' hin h => ?_
  obtain ⟨hdone, hrest, hsame⟩ := h
  have hnew : e ∉ done := by
    have hnodup := helements.sublist hin.sublist
    exact fun he => (List.nodup_append.mp hnodup).2.2 e he e (by simp) rfl
  have hbefore : env.schema.ListsOnce s'.database (tables.part e) (p e) := by
    obtain ⟨us, ⟨t, ht, hkeeps⟩, hus⟩ := hstart e
    exact ⟨us, ⟨t, (hrest e hnew).trans ht, hkeeps⟩, hus⟩
  refine (hstatement e (hin.subset (by simp)) s' hsame hbefore).mono fun _ s'' h' => ?_
  obtain ⟨hlists, hsame'⟩ := h'
  refine ⟨fun e' he' => ?_, fun e' he' => ?_, hsame.trans (hsame'.mono ?_)⟩
  · rcases List.mem_append.mp he' with he' | he'
    · have hne : e' ≠ e := fun heq => hnew (heq ▸ he')
      exact (hdone e' he').of_same hsame' (by simpa using hother hne)
    · rw [List.mem_singleton.mp he']
      exact hlists
  · simp only [List.mem_append, List.mem_singleton, not_or] at he'
    exact (hsame' _ (by simpa using hother he'.2)).trans (hrest e' he'.1)
  · cases e <;> simp [TablePair.part]

/-- Each id is selected once for the kinds of elements that are asked for. -/
theorem FreshFor.wp_insertSelected (h : env.FreshFor s.database target tables sources)
    {elements : List Element} (helements : elements.Nodup)
    {select : Element → Database → Except Error (List Value)}
    (hselect : ∀ e ∈ elements, ∀ db,
      Database.SameBut [tables.vertices, tables.edges] s.database db → ∃ new,
        select e db = .ok new ∧ env.schema.idAffinity.Keeps new ∧ new.Nodup ∧
          ∀ v, v ∈ new ↔ q e v) :
    (elements.forM fun e => env.schema.insertIds (tables.part e) (select e)).wp (fun _ s' =>
      (∀ e ∈ elements, env.schema.ListsOnce s'.database (tables.part e) (q e)) ∧
      (∀ e ∉ elements, s'.database.find? (tables.part e) = s.database.find? (tables.part e)) ∧
      Database.SameBut [tables.vertices, tables.edges] s.database s'.database) s := by
  refine wp_eachOnce helements h.parts h.listsOnce fun e he s' hsame hempty => ?_
  obtain ⟨new, hs, hkeeps, hnodup, hmem⟩ := hselect e he s'.database hsame
  exact .insertIds hempty hs hkeeps hnodup fun db hlists hsame' => ⟨hlists.congr hmem, hsame'⟩

/-! ## Four operations -/

theorem wp_distinctify (h : env.FreshFor s.database target tables sources) (hg : g ∈ sources)
    (hids : env.HoldsIds s.database g) :
    (env.distinctify (.named target) g).wp (fun _ s' =>
      (∀ e, env.schema.ListsOnce s'.database (tables.part e) (env.HasId s.database g e)) ∧
      Database.SameBut [tables.vertices, tables.edges] s.database s'.database) s := by
  obtain ⟨others, hr⟩ := hids.resolves
  unfold distinctify
  simp only [forBoth_eq_forM]
  refine .bind (.ofExcept h.resolves (.bind (.ofExcept hr ((h.wp_insertSelected (by decide)
    fun e _ db hsame => ?_).mono fun _ s' h' => ⟨fun e => h'.1 e (by cases e <;> simp), h'.2.2⟩))))
  obtain ⟨us, hread, hkeeps, -, hus⟩ := h.exists_read hg hids hr hsame e
  refine ⟨Value.groups us, ?_, fun v hv => hkeeps v (Value.mem_groups.mp hv), Value.nodup_groups _,
    fun v => Value.mem_groups.trans (hus v)⟩
  rw [hread]
  rfl

theorem wp_intersect (h : env.FreshFor s.database target tables sources) (hl : lhs ∈ sources)
    (hr : rhs ∈ sources) (hids : env.HoldsIds s.database lhs) (hids' : env.HoldsIds s.database rhs) :
    (env.intersect (.named target) lhs rhs).wp (fun _ s' =>
      (∀ e, env.schema.ListsOnce s'.database (tables.part e) fun v =>
        env.HasId s.database lhs e v ∧ env.HasId s.database rhs e v) ∧
      Database.SameBut [tables.vertices, tables.edges] s.database s'.database) s := by
  obtain ⟨left, hleft⟩ := hids.resolves
  obtain ⟨right, hright⟩ := hids'.resolves
  unfold intersect
  simp only [forBoth_eq_forM]
  refine .bind (.ofExcept h.resolves (.bind (.ofExcept hleft (.bind (.ofExcept hright
    ((h.wp_insertSelected (by decide) fun e _ db hsame => ?_).mono fun _ s' h' =>
      ⟨fun e => h'.1 e (by cases e <;> simp), h'.2.2⟩))))))
  obtain ⟨us, hread, hkeeps, hnull, hus⟩ := h.exists_read hl hids hleft hsame e
  obtain ⟨us', hread', -, -, hus'⟩ := h.exists_read hr hids' hright hsame e
  have hmem (v : Value) : v ∈ Value.groups (us.filter (·.memberOf us')) ↔
      env.HasId s.database lhs e v ∧ env.HasId s.database rhs e v := by
    rw [Value.mem_groups, List.mem_filter, Value.memberOf_iff, ← hus, ← hus']
    -- a null is in no list, but there is none
    exact and_congr_right fun hv => and_iff_right fun hn => hnull (hn ▸ hv)
  refine ⟨_, ?_, fun v hv => hkeeps v ((hus v).mpr ((hmem v).mp hv).1), Value.nodup_groups _, hmem⟩
  rw [hread, hread']
  simp [Cells.values_within]

theorem wp_subtract {component : Component} (h : env.FreshFor s.database target tables sources)
    (hl : lhs ∈ sources) (hr : rhs ∈ sources) (hids : env.HoldsIds s.database lhs)
    (hids' : env.HoldsIds s.database rhs) :
    (env.subtract (.named target) lhs rhs component).wp (fun _ s' =>
      (∀ e ∈ component.elements, env.schema.ListsOnce s'.database (tables.part e) fun v =>
        env.HasId s.database lhs e v ∧ ¬ env.HasId s.database rhs e v) ∧
      (∀ e ∉ component.elements,
        s'.database.find? (tables.part e) = s.database.find? (tables.part e)) ∧
      Database.SameBut [tables.vertices, tables.edges] s.database s'.database) s := by
  obtain ⟨left, hleft⟩ := hids.resolves
  obtain ⟨right, hright⟩ := hids'.resolves
  unfold subtract
  refine .bind (.ofExcept h.resolves (.bind (.ofExcept hleft (.bind (.ofExcept hright
    (h.wp_insertSelected (by cases component <;> decide) fun e _ db hsame => ?_))))))
  obtain ⟨us, hread, hkeeps, hnull, hus⟩ := h.exists_read hl hids hleft hsame e
  obtain ⟨us', hread', -, hnull', hus'⟩ := h.exists_read hr hids' hright hsame e
  have hmem (v : Value) : v ∈ Value.groups (us.filter (·.absentFrom us')) ↔
      env.HasId s.database lhs e v ∧ ¬ env.HasId s.database rhs e v := by
    rw [Value.mem_groups, List.mem_filter, Value.absentFrom_iff, ← hus, ← hus']
    -- outside a list with a null there is nothing, outside an empty one there is everything
    refine and_congr_right fun hv => ⟨?_, fun hout => .inr ⟨fun hn => hnull (hn ▸ hv), hnull', hout⟩⟩
    rintro (rfl | ⟨_, _, hout⟩)
    · simp
    · exact hout
  refine ⟨_, ?_, fun v hv => hkeeps v ((hus v).mpr ((hmem v).mp hv).1), Value.nodup_groups _, hmem⟩
  rw [hread, hread']
  simp [Cells.values_without]

/-- A union adds to what the target has already. -/
theorem wp_union {before : Database} (h : env.FreshFor before target tables sources) (hg : g ∈ sources)
    (hids : env.HoldsIds s.database g)
    (hstart : ∀ e, env.schema.ListsOnce s.database (tables.part e) (p e)) (hp : ∀ e, ¬ p e .null) :
    (env.union (.named target) g).wp (fun _ s' =>
      (∀ e, env.schema.ListsOnce s'.database (tables.part e) fun v =>
        p e v ∨ env.HasId s.database g e v) ∧
      Database.SameBut [tables.vertices, tables.edges] s.database s'.database) s := by
  obtain ⟨others, hr⟩ := hids.resolves
  unfold union
  simp only [forBoth_eq_forM]
  refine .bind (.ofExcept h.resolves (.bind (.ofExcept hr ((wp_eachOnce (by decide) h.parts hstart
    fun e _ s' hsame hlists => ?_).mono fun _ s' h' =>
      ⟨fun e => h'.1 e (by cases e <;> simp), h'.2.2⟩))))
  obtain ⟨us, hread, hkeeps, hnull, hus⟩ := h.exists_read hg hids hr hsame e
  refine .insertNewIds hlists (hp e) hread hkeeps hnull fun db hlists' hsame' => ⟨?_, hsame'⟩
  exact hlists'.congr fun v => or_congr_right (hus v)

/-! ## Runs -/

/-- The unions of graphs with a target, one after another. -/
def unions (target : String) (graphs : List GraphRef) : List Instruction :=
  graphs.map (.union (.named target))

/-- Unions add what any of the graphs has, and write to the target only. -/
theorem issueAll_unions [RegexLibrary] [Summation] {before : Database} (graphs : List GraphRef)
    (h : env.FreshFor before target tables sources) (hgraphs : graphs ⊆ sources)
    (hids : ∀ g ∈ graphs, env.HoldsIds s.database g)
    (hstart : ∀ e, env.schema.ListsOnce s.database (tables.part e) (p e)) (hp : ∀ e, ¬ p e .null) :
    env.Succeeds s (unions target graphs) ∧
    (∀ e, env.schema.ListsOnce (env.issueAll s (unions target graphs)).database (tables.part e) fun v =>
        p e v ∨ ∃ g ∈ graphs, env.HasId s.database g e v) ∧
    Database.SameBut [tables.vertices, tables.edges] s.database
      (env.issueAll s (unions target graphs)).database := by
  induction graphs generalizing s p with
  | nil => exact ⟨trivial, fun e => (hstart e).congr fun v => by simp, .refl _ _⟩
  | cons g graphs ih =>
    have hrest {g' : GraphRef} (hg' : g' ∈ graphs) : g' ∈ sources := hgraphs (by simp [hg'])
    obtain ⟨hdone, hlists, hsame⟩ := outcome_of_wp (i := .union (.named target) g) rfl
      (wp_union h (hgraphs (by simp)) (hids g (by simp)) hstart hp)
    have hnull (e : Element) : ¬ (p e .null ∨ env.HasId s.database g e .null) := by
      rintro (hnull | hnull)
      · exact hp e hnull
      · exact (hids g (by simp)).ne_null hnull rfl
    obtain ⟨hsucceeds, hlists', hsame'⟩ := ih (fun _ => hrest) (fun g' hg' =>
      h.holdsIds_of_same (hrest hg') hsame (hids g' (by simp [hg']))) hlists hnull
    refine ⟨⟨hdone, hsucceeds⟩, fun e => (hlists' e).congr fun v => ?_, hsame.trans hsame'⟩
    -- the graphs that are still to come have what they had
    have hsources : (∃ g' ∈ graphs, env.HasId (env.issue s (.union (.named target) g)).database g' e v) ↔
        ∃ g' ∈ graphs, env.HasId s.database g' e v :=
      exists_congr fun g' => and_congr_right fun hg' =>
        h.hasId_of_same (hrest hg') hsame (hids g' (by simp [hg']))
    rw [hsources, List.exists_mem_cons_iff, or_assoc]

/-- Two graphs are united in any order, and as often as one likes. -/
theorem issueAll_unions_pair [RegexLibrary] [Summation]
    (h : env.FreshFor s.database target tables sources) (hl : lhs ∈ sources)
    (hr : rhs ∈ sources) (hids : env.HoldsIds s.database lhs) (hids' : env.HoldsIds s.database rhs)
    (hgraphs : ∀ g, g ∈ graphs ↔ g = lhs ∨ g = rhs) :
    env.Succeeds s (unions target graphs) ∧ ∀ e,
      env.schema.ListsOnce (env.issueAll s (unions target graphs)).database (tables.part e) fun v =>
        env.HasId s.database lhs e v ∨ env.HasId s.database rhs e v := by
  have hsources : graphs ⊆ sources := by
    intro g hg
    rcases (hgraphs g).mp hg with rfl | rfl <;> assumption
  have hall : ∀ g ∈ graphs, env.HoldsIds s.database g := by
    intro g hg
    rcases (hgraphs g).mp hg with rfl | rfl <;> assumption
  obtain ⟨hsucceeds, hlists, -⟩ := issueAll_unions graphs h hsources hall h.listsOnce fun _ => id
  refine ⟨hsucceeds, fun e => (hlists e).congr fun v => ?_⟩
  simp only [hgraphs, false_or, exists_eq_or_imp, exists_eq_left]

/-- What a table lists once is what its graph has. -/
theorem holdsIds_of_listsOnce (hr : env.resolve g = .ok tables)
    (h : ∀ e, env.schema.ListsOnce db (tables.part e) (p e)) (hp : ∀ e, ¬ p e .null) :
    env.HoldsIds db g ∧ ∀ e v, env.HasId db g e v ↔ p e v := by
  refine ⟨fun e => ?_, fun e v => ?_⟩
  · obtain ⟨us, hlists, -, hus⟩ := h e
    exact ⟨us, ⟨tables, hr, hlists⟩, fun hnull => hp e ((hus _).mp hnull)⟩
  · obtain ⟨us, hlists, -, hus⟩ := h e
    exact (Holds.hasId_iff ⟨tables, hr, hlists⟩).trans (hus v)

section Laws

variable {tables' : TablePair} {target' : String}
  (hids : env.HoldsIds s.database lhs) (hids' : env.HoldsIds s.database rhs)

include hids hids'

/-- The common ids of two graphs and those that only the first has are together those of the first. -/
theorem issueAll_split [RegexLibrary] [Summation]
    (h : env.FreshFor s.database target tables [lhs, rhs])
    (h' : env.FreshFor s.database target' tables' [lhs, rhs, .named target]) :
    let split := [Instruction.intersect (.named target) lhs rhs, .subtract (.named target') lhs rhs .both]
    let after := env.issueAll s split
    env.Succeeds s split ∧ ∀ e, ∃ xs ys, env.schema.Lists after.database (tables.part e) xs ∧
      env.schema.Lists after.database (tables'.part e) ys ∧ (xs ++ ys).Nodup ∧
      ∀ v, v ∈ xs ++ ys ↔ env.HasId s.database lhs e v := by
  intro split after
  obtain ⟨hdone, hboth, hsame⟩ := outcome_of_wp (i := .intersect (.named target) lhs rhs) rfl
    (wp_intersect h (by simp) (by simp) hids hids')
  have hapart : tables.Apart tables' := h'.outside (.named target) (by simp) tables h.resolves
  obtain ⟨hdone', honly, -, hsame'⟩ := outcome_of_wp (i := .subtract (.named target') lhs rhs .both)
    rfl (wp_subtract (h'.of_same hsame hapart) (by simp) (by simp)
      (h.holdsIds_of_same (by simp) hsame hids) (h.holdsIds_of_same (by simp) hsame hids'))
  refine ⟨⟨hdone, hdone', trivial⟩, fun e => ?_⟩
  obtain ⟨xs, hxs, hnodup, hmem⟩ := hboth e
  obtain ⟨ys, hys, hnodup', hmem'⟩ := honly e (by cases e <;> decide)
  -- the difference was taken after the intersection, of graphs that had not changed
  simp only [h.hasId_of_same (show lhs ∈ [lhs, rhs] by simp) hsame hids,
    h.hasId_of_same (show rhs ∈ [lhs, rhs] by simp) hsame hids'] at hmem'
  have hxs' := hxs.of_same hsame' (TablePair.forall_tables (hapart e))
  refine ⟨xs, ys, hxs', hys, ?_, fun v => ?_⟩
  · rw [List.nodup_append]
    refine ⟨hnodup, hnodup', ?_⟩
    rintro v hv w hw rfl
    exact ((hmem' v).mp hw).2 ((hmem v).mp hv).2
  · rw [List.mem_append, hmem, hmem', ← and_or_left, and_iff_left (em _)]

/-- A graph without the ids of another, joined with that, is both together. -/
theorem issueAll_rejoin [RegexLibrary] [Summation]
    (h : env.FreshFor s.database target tables [lhs, rhs])
    (h' : env.FreshFor s.database target' tables' [lhs, rhs, .named target])
    (hgraphs : ∀ g, g ∈ graphs ↔ g = .named target ∨ g = rhs) :
    let steps := .subtract (.named target) lhs rhs .both :: unions target' graphs
    env.Succeeds s steps ∧ ∀ e,
      env.schema.ListsOnce (env.issueAll s steps).database (tables'.part e) fun v =>
        env.HasId s.database lhs e v ∨ env.HasId s.database rhs e v := by
  intro steps
  obtain ⟨hdone, honly, -, hsame⟩ := outcome_of_wp (i := .subtract (.named target) lhs rhs .both) rfl
    (wp_subtract h (by simp) (by simp) hids hids')
  have hapart : tables.Apart tables' := h'.outside (.named target) (by simp) tables h.resolves
  obtain ⟨hdifference, hmem⟩ := holdsIds_of_listsOnce h.resolves
    (fun e => honly e (by cases e <;> decide)) fun e hnull => hids.ne_null hnull.1 rfl
  have hrhs := h.holdsIds_of_same (show rhs ∈ [lhs, rhs] by simp) hsame hids'
  obtain ⟨hsucceeds, hlists⟩ := issueAll_unions_pair (h'.of_same hsame hapart) (by simp) (by simp)
    hdifference hrhs hgraphs
  refine ⟨⟨hdone, hsucceeds⟩, fun e => (hlists e).congr fun v => ?_⟩
  -- the ids that were taken away are among those that are joined
  rw [hmem, h.hasId_of_same (by simp) hsame hids', and_or_right, and_iff_left (em _).symm]

end Laws

/-- Copies, unions, intersections and differences in fresh targets list each id of the sets of ids once,
for vertices and for edges. A union may name its graphs in any order and more than once, an intersection
in either order, and a difference leaves the table for elements that it is not asked for. A graph is
split by another into two parts without a common id, and has the same union with it as the second part
has. -/
theorem set_operations_exact [RegexLibrary] [Summation] (hids : env.HoldsIds s.database lhs)
    (hids' : env.HoldsIds s.database rhs) :
    let A := env.HasId s.database lhs
    let B := env.HasId s.database rhs
    (∀ t tables, env.FreshFor s.database t tables [lhs, rhs] →
      (let copy : Instruction := .distinctify (.named t) lhs
       env.outcome s copy = .ok .done ∧
        ∀ e, env.schema.ListsOnce (env.issue s copy).database (tables.part e) (A e)) ∧
      (∀ graphs, (∀ g, g ∈ graphs ↔ g = lhs ∨ g = rhs) →
        env.Succeeds s (unions t graphs) ∧
        ∀ e, env.schema.ListsOnce (env.issueAll s (unions t graphs)).database (tables.part e)
          fun v => A e v ∨ B e v) ∧
      (∀ common ∈ [Instruction.intersect (.named t) lhs rhs, .intersect (.named t) rhs lhs],
        env.outcome s common = .ok .done ∧
        ∀ e, env.schema.ListsOnce (env.issue s common).database (tables.part e)
          fun v => A e v ∧ B e v) ∧
      ∀ component,
        let difference : Instruction := .subtract (.named t) lhs rhs component
        let after := env.issue s difference
        env.outcome s difference = .ok .done ∧
        (∀ e ∈ component.elements,
          env.schema.ListsOnce after.database (tables.part e) fun v => A e v ∧ ¬ B e v) ∧
        ∀ e ∉ component.elements,
          after.database.find? (tables.part e) = s.database.find? (tables.part e)) ∧
    ∀ t t' tables tables', env.FreshFor s.database t tables [lhs, rhs] →
      env.FreshFor s.database t' tables' [lhs, rhs, .named t] →
      (let split := [Instruction.intersect (.named t) lhs rhs, .subtract (.named t') lhs rhs .both]
       let after := env.issueAll s split
       env.Succeeds s split ∧ ∀ e, ∃ xs ys, env.schema.Lists after.database (tables.part e) xs ∧
          env.schema.Lists after.database (tables'.part e) ys ∧ (xs ++ ys).Nodup ∧
          ∀ v, v ∈ xs ++ ys ↔ A e v) ∧
      ∀ graphs, (∀ g, g ∈ graphs ↔ g = .named t ∨ g = rhs) →
        let steps := .subtract (.named t) lhs rhs .both :: unions t' graphs
        env.Succeeds s steps ∧
        ∀ e, env.schema.ListsOnce (env.issueAll s steps).database (tables'.part e)
          fun v => A e v ∨ B e v := by
  intro A B
  refine ⟨fun t tables h => ⟨?_, fun graphs hgraphs => ?_, fun common hcommon => ?_, fun component => ?_⟩,
    fun t t' tables tables' h h' => ⟨issueAll_split hids hids' h h', fun graphs hgraphs =>
      issueAll_rejoin hids hids' h h' hgraphs⟩⟩
  · obtain ⟨hdone, hlists, -⟩ := outcome_of_wp (i := .distinctify (.named t) lhs) rfl
      (wp_distinctify h (by simp) hids)
    exact ⟨hdone, hlists⟩
  · exact issueAll_unions_pair h (by simp) (by simp) hids hids' hgraphs
  · simp only [List.mem_cons, List.not_mem_nil, or_false] at hcommon
    rcases hcommon with rfl | rfl
    · obtain ⟨hdone, hlists, -⟩ := outcome_of_wp (i := .intersect (.named t) lhs rhs) rfl
        (wp_intersect h (by simp) (by simp) hids hids')
      exact ⟨hdone, hlists⟩
    · obtain ⟨hdone, hlists, -⟩ := outcome_of_wp (i := .intersect (.named t) rhs lhs) rfl
        (wp_intersect h (by simp) (by simp) hids' hids)
      exact ⟨hdone, fun e => (hlists e).congr fun v => and_comm⟩
  · obtain ⟨hdone, hlists, hother, -⟩ := outcome_of_wp
      (i := .subtract (.named t) lhs rhs component) rfl (wp_subtract h (by simp) (by simp) hids hids')
    exact ⟨hdone, hlists, hother⟩

end Environment

/-! ## Rows that are repeated -/

namespace SmallWorld

open Environment

/-- A world with some rows twice, of which `src` holds a vertex and, twice, an edge. -/
def repeated : Store :=
  holding (environment.schema.listing [] ["a", "b", "b", "c"])
    (edgeRows [("e1", "a", "b"), ("e1", "a", "b"), ("e2", "b", "c")]) (["b"], ["e2", "e2"]) ([], [])

/-- What there is of the elements in the world and in `src`. -/
def repeatedIds : GraphRef → Element → List Value
  | .base, .vertex => [.text "a", .text "b", .text "b", .text "c"]
  | .base, .edge => [.text "e1", .text "e1", .text "e2"]
  | .named _, .vertex => [.text "b"]
  | .named _, .edge => [.text "e2", .text "e2"]

theorem repeated_holds {g : GraphRef} (hg : g ∈ [.base, .named "src"]) (e : Element) :
    environment.Holds repeated.database g e (repeatedIds g e) := by
  simp only [List.mem_cons, List.not_mem_nil, or_false] at hg
  rcases hg with rfl | rfl
  · cases e with
    | vertex => exact ⟨_, rfl, Schema.lists_listing [] _ idAffinity_eq (holding_vertexTable ..)⟩
    | edge => exact holding_base_edges ..
  · cases e with
    | vertex => exact holding_src_vertices ..
    | edge => exact holding_src_edges ..

theorem repeated_holdsIds {g : GraphRef} (hg : g ∈ [.base, .named "src"]) :
    environment.HoldsIds repeated.database g := by
  refine fun e => ⟨_, repeated_holds hg e, ?_⟩
  cases g <;> cases e <;> simp [repeatedIds]

theorem repeated_fresh_dst :
    environment.FreshFor repeated.database "dst" (tables "dst") [.base, .named "src"] :=
  (holding_fresh_dst ..).freshFor (apart_of_pairwise (by decide)) (by decide)

theorem repeated_fresh_out :
    environment.FreshFor repeated.database "out" (tables "out") [.base, .named "src", .named "dst"] :=
  (holding_fresh_out ..).freshFor (apart_of_pairwise (by decide)) (by decide)

/-- Of the rows that are there twice the results have one each. -/
theorem set_operations_exact_repeated :
    environment.schema.ListsOnce (environment.issue repeated
        (.distinctify (.named "dst") .base)).database (tables "dst").vertices
      (· ∈ [.text "a", .text "b", .text "c"]) ∧
    environment.schema.ListsOnce (environment.issueAll repeated
        (unions "dst" [.named "src", .base, .named "src"])).database (tables "dst").vertices
      (· ∈ [.text "a", .text "b", .text "c"]) ∧
    environment.schema.ListsOnce (environment.issue repeated
        (.intersect (.named "dst") (.named "src") .base)).database (tables "dst").edges
      (· = .text "e2") ∧
    environment.schema.ListsOnce (environment.issue repeated
        (.subtract (.named "dst") .base (.named "src") .vertex)).database (tables "dst").vertices
      (· ∈ [.text "a", .text "c"]) ∧
    (environment.issue repeated (.subtract (.named "dst") .base (.named "src") .vertex)).database.find?
      (tables "dst").edges = some (environment.schema.listing [] []) ∧
    (let after := environment.issueAll repeated [.intersect (.named "dst") .base (.named "src"),
      .subtract (.named "out") .base (.named "src") .both]
     ∃ xs ys, environment.schema.Lists after.database (tables "dst").vertices xs ∧
      environment.schema.Lists after.database (tables "out").vertices ys ∧ (xs ++ ys).Nodup ∧
      ∀ v, v ∈ xs ++ ys ↔ v ∈ [.text "a", .text "b", .text "c"]) ∧
    environment.schema.ListsOnce (environment.issueAll repeated
        (.subtract (.named "dst") .base (.named "src") .both ::
          unions "out" [.named "src", .named "dst"])).database (tables "out").vertices
      (· ∈ [.text "a", .text "b", .text "c"]) := by
  have hbase (e : Element) (v : Value) := (repeated_holds (g := .base) (by simp) e).hasId_iff (v := v)
  have hsrc (e : Element) (v : Value) :=
    (repeated_holds (g := .named "src") (by simp) e).hasId_iff (v := v)
  obtain ⟨hone, htwo⟩ := set_operations_exact (repeated_holdsIds (g := .base) (by simp))
    (repeated_holdsIds (g := .named "src") (by simp))
  obtain ⟨⟨-, hcopy⟩, hunion, hcommon, hdifference⟩ := hone "dst" _ repeated_fresh_dst
  obtain ⟨⟨-, hsplit⟩, hrejoin⟩ := htwo "dst" "out" _ _ repeated_fresh_dst repeated_fresh_out
  obtain ⟨-, honly, hrest⟩ := hdifference .vertex
  obtain ⟨xs, ys, hxs, hys, hnodup, hmem⟩ := hsplit .vertex
  refine ⟨(hcopy .vertex).congr fun v => ?_, ((hunion _ fun g => ?_).2 .vertex).congr fun v => ?_,
    ((hcommon _ (by simp)).2 .edge).congr fun v => ?_, (honly .vertex (by decide)).congr fun v => ?_,
    (hrest .edge (by decide)).trans rfl, ⟨xs, ys, hxs, hys, hnodup, fun v => (hmem v).trans ?_⟩,
    ((hrejoin _ fun g => ?_).2 .vertex).congr fun v => ?_⟩
  all_goals
    simp only [hbase, hsrc, repeatedIds, List.mem_cons, List.not_mem_nil, or_false]
    grind

end SmallWorld
end Provenance
