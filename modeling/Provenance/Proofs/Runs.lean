-- SUMMARY: Runs of instructions, and what each of them keeps.
import Provenance.Proofs.GraphSets

/-!
# Runs of instructions

Instructions are issued one after the other, and each is carried out in the store that the one
before has left, however that ended. What every statement keeps is kept by a whole run. Statements
write to the tables of their handles only, so much depends on how these are named: `Sorted` says
that tables are what their handles are for, and environments that name tables after handles are
sorted as long as no handle takes an annotation table.
-/
namespace Provenance

open Relation Program Store

namespace Environment

/-- The store that an instruction leaves. -/
def issue [RegexLibrary] [Summation] (env : Environment) (s : Store) (i : Instruction) : Store :=
  ((i.run env).perform s).2

/-- The store that a series of instructions leaves. -/
def issueAll [RegexLibrary] [Summation] (env : Environment) (s : Store) (is : List Instruction) :
    Store :=
  is.foldl env.issue s

variable {env : Environment} {s : Store} {tables tables' : TablePair} {name name' : String}

@[simp] theorem issueAll_append [RegexLibrary] [Summation] (is : List Instruction)
    (i : Instruction) : env.issueAll s (is ++ [i]) = env.issue (env.issueAll s is) i := by
  simp [issueAll]

/-- What one instruction keeps, the run keeps. -/
theorem issueAll_keeps [RegexLibrary] [Summation] {P : Store → Prop} (hs : P s)
    (hissue : ∀ s i, P s → P (env.issue s i)) (is : List Instruction) : P (env.issueAll s is) := by
  induction is generalizing s with
  | nil => exact hs
  | cons i is ih => exact ih (hissue s i hs)

/-- What every statement keeps, the instruction keeps. -/
theorem issue_keeps [RegexLibrary] [Summation]
    {P : Database → Prop} (hs : P s.database) (i : Instruction)
    (hwrite : ∀ a ∈ i.access?, ∀ db db', P db → env.Write s.database a db db' → P db') :
    P (env.issue s i).database := by
  have hrun : ReflTransGen (env.Writes s.database i) s.database (env.issue s i).database :=
    (i.run_after env s).database
  generalize (env.issue s i).database = db at hrun ⊢
  induction hrun with
  | refl => exact hs
  | tail _ hw ih =>
    obtain ⟨a, ha, hw⟩ := hw
    exact hwrite a ha _ _ ih hw

/-- No row is lost but from tables that are made anew. -/
theorem issue_grows [RegexLibrary] [Summation] {i : Instruction} {t : Table} (hi : i.makes = false)
    (ht : s.database.find? name = some t) :
    ∃ more, (env.issue s i).database.find? name = some (t.append more) :=
  Writes.grows (i.run_after env s).database hi name t ht

/-! ## How tables are named -/

/-- Annotations have tables of their own. No graph has its vertices where another has its edges, nor
either where there are metadata. Two graphs may share their tables. -/
structure Sorted (env : Environment) : Prop where
  annotations : ∀ h tables, env.writableTables h = .ok tables →
    ∀ e e', Name.folded (env.schema.annotationTable e) ≠ Name.folded (tables.part e')
  kinds : ∀ name name' tables tables', env.resolve (.named name) = .ok tables →
    env.resolve (.named name') = .ok tables' →
      Name.folded tables.vertices ≠ Name.folded tables'.edges
  metadata : ∀ name name' tables tables', env.resolveMetadata name = .ok tables →
    env.resolve (.named name') = .ok tables' → tables.Apart tables'

/-- Metadata are not where graphs have their tables, the base graph among them. -/
def MetadataApart (env : Environment) : Prop :=
  ∀ name tables g others, env.resolveMetadata name = .ok tables → env.resolve g = .ok others →
    tables.Apart others

theorem Sorted.metadataApart (h : env.Sorted) : env.MetadataApart := by
  intro name tables g others htables hg
  cases g with
  | base =>
    obtain rfl := Except.ok.inj hg
    intro e e'
    have hne := h.annotations (.metadata name) tables htables e' e
    cases e' <;> exact hne.symm
  | named name' => exact h.metadata name name' tables others htables hg

/-- Tables that graphs share are of one kind. -/
theorem Sorted.kind_eq (h : env.Sorted) {e e' : Element}
    (hr : env.resolve (.named name) = .ok tables) (hr' : env.resolve (.named name') = .ok tables')
    (heq : Name.folded (tables.part e) = Name.folded (tables'.part e')) : e = e' := by
  cases e with
  | vertex =>
    cases e' with
    | vertex => rfl
    | edge => exact absurd heq (h.kinds _ _ _ _ hr hr')
  | edge =>
    cases e' with
    | vertex => exact absurd heq.symm (h.kinds _ _ _ _ hr' hr)
    | edge => rfl

/-- All metadata have the tables that are named after them. -/
def OwnMetadata (env : Environment) : Prop :=
  ∀ slot ∈ env.metadata.slots, slot.2 = env.metadataTables slot.1

theorem ownMetadata_of_create {schema : Schema} {stem : Option String}
    (h : create schema stem = .ok env) : env.OwnMetadata := by
  unfold create at h
  split at h
  · obtain rfl := Except.ok.inj h
    exact fun slot hslot => absurd hslot (by simp [Registry.empty])
  · cases h

theorem OwnMetadata.addMetadata (h : env.OwnMetadata) : (env.addMetadata name).OwnMetadata := by
  intro slot hslot
  simp only [Environment.addMetadata, Registry.register] at hslot
  split at hslot
  · exact h slot hslot
  · rcases List.mem_append.mp hslot with hslot | hslot
    · exact h slot hslot
    · rw [List.mem_singleton.mp hslot]
      rfl

theorem OwnMetadata.resolveMetadata (h : env.OwnMetadata)
    (hr : env.resolveMetadata name = .ok tables) : tables = env.metadataTables name := by
  cases hfind : env.metadata.find? name with
  | none => simp [Environment.resolveMetadata, hfind] at hr
  | some found =>
    obtain rfl : found = tables := by simpa [Environment.resolveMetadata, hfind] using hr
    exact h _ (Registry.mem_slots_of_find? hfind)

/-- What follows the stem begins with another word for metadata than for graphs. -/
theorem metadataTables_apart (env : Environment) (name name' : String) :
    (env.metadataTables name).Apart (env.graphTables name') := by
  have hne (a b c d : String) : Name.folded (env.stem ++ "_meta_" ++ a ++ b) ≠
      Name.folded (env.stem ++ "_graph_" ++ c ++ d) := by
    intro heq
    have hmeta : (Name.folded "_meta_").toList = ['_', 'm', 'e', 't', 'a', '_'] := by decide
    have hgraph : (Name.folded "_graph_").toList = ['_', 'g', 'r', 'a', 'p', 'h', '_'] := by decide
    have heq := congrArg String.toList heq
    simp only [Name.folded_append, String.toList_append, List.append_assoc, hmeta, hgraph,
      List.append_cancel_left_eq, List.cons_append, List.cons.injEq] at heq
    exact absurd heq.2.1 (by decide)
  intro e e'
  cases e with
  | vertex =>
    cases e' with
    | vertex => exact hne _ _ _ _
    | edge => exact hne _ _ _ _
  | edge =>
    cases e' with
    | vertex => exact hne _ _ _ _
    | edge => exact hne _ _ _ _

/-- Where tables are named after their handles, it is enough that none of them is an annotation
table. -/
theorem OwnTables.sorted (hgraphs : env.OwnTables) (hmetadata : env.OwnMetadata)
    (hannotations : ∀ h tables, env.writableTables h = .ok tables →
      ∀ e e', Name.folded (env.schema.annotationTable e) ≠ Name.folded (tables.part e')) :
    env.Sorted := by
  refine ⟨hannotations, fun name name' _ _ hr hr' => ?_, fun name name' _ _ hr hr' => ?_⟩
  · obtain rfl := hgraphs.resolve hr
    obtain rfl := hgraphs.resolve hr'
    have hne := folded_graphTables_ne env name name' (show Element.vertex ≠ .edge by simp)
    exact hne
  · obtain rfl := hmetadata.resolveMetadata hr
    obtain rfl := hgraphs.resolve hr'
    exact metadataTables_apart env name name'

/-- Handles whose tables are apart are sorted, if graphs have the tables that are named after them. -/
theorem Apart.sorted (h : env.Apart) (hown : env.OwnTables) : env.Sorted := by
  refine ⟨fun handle tables htables e e' => ?_, fun name name' _ _ hr hr' => ?_,
    fun name name' tables tables' hr hr' => ?_⟩
  · have hbase (other : Handle) (hne : Handle.graph .base ≠ other)
        (hother : env.tablesOf other = .ok tables) :
        Name.folded (env.schema.annotationTable e) ≠ Name.folded (tables.part e') := by
      have hapart := h _ _ _ tables hne rfl hother e e'
      cases e <;> exact hapart
    cases handle with
    | graph g =>
      obtain ⟨name, rfl, hr⟩ := exists_name_of_writable htables
      exact hbase (.graph (.named name)) (by simp) hr
    | metadata name => exact hbase (.metadata name) (by simp) htables
  · obtain rfl := hown.resolve hr
    obtain rfl := hown.resolve hr'
    have hne := folded_graphTables_ne env name name' (show Element.vertex ≠ .edge by simp)
    exact hne
  · exact h (.metadata name) (.graph (.named name')) tables tables' (by simp) hr hr'

/-! ## A run over a small world -/

theorem oneGraph_sorted : oneGraph.Sorted := by
  refine oneGraph_ownTables.sorted (by simp [OwnMetadata, oneGraph, addGraph, Registry.empty])
    fun h tables htables e e' => ?_
  cases h with
  | graph g =>
    obtain ⟨name, rfl, hr⟩ := exists_name_of_writable htables
    obtain rfl := resolve_oneGraph hr
    cases e <;> cases e' <;> decide
  | metadata name => cases htables

/-- A vertex is added to the graph. -/
def addVertex : Instruction := .insertGiven .vertex (.named "g") ["a"]

/-- Whatever is reached from the graph is added to it. -/
def searchFromGraph : Instruction := .lineage (.named "g") .base (.named "g") 2 .ancestor

theorem mem_of_addVertex {w : World} (hw : w.IsBase oneGraph s.database)
    (hvertex : .text "a" ∈ w.vertices.map fun v => oneGraph.schema.idAffinity.store v.id)
    (hfresh : oneGraph.Fresh s.database "g" (oneGraph.graphTables "g")) (hscratch : s.CanScratch) :
    ∃ t, (oneGraph.issue s addVertex).database.find? (oneGraph.graphTables "g").vertices = some t ∧
      .text "a" ∈ t.values "hash" := by
  obtain ⟨_, hr, hpresent⟩ := hw.vertices
  obtain rfl := Except.ok.inj hr
  have hadd : (oneGraph.insertGiven .vertex (.named "g") ["a"]).wp _ s :=
    wp_insertGiven (e := .vertex) hscratch hfresh hpresent (by decide)
  obtain ⟨_, s', hadd, ⟨_, ⟨t, ht, _, rfl⟩, _, hmem⟩, _⟩ := hadd
  have hissue : oneGraph.issue s addVertex = s' := by
    change (Program.perform (oneGraph.insertGiven .vertex (.named "g") ["a"] >>= _) s).2 = s'
    rw [perform_bind_of_ok hadd]
    rfl
  exact ⟨t, hissue ▸ ht, (hmem _).mpr ⟨hvertex, "a", by simp, by decide, rfl⟩⟩

/-- What was added first stays where the search adds to it. -/
theorem mem_of_addThenSearch {w : World} (hw : w.IsBase oneGraph s.database)
    (hvertex : .text "a" ∈ w.vertices.map fun v => oneGraph.schema.idAffinity.store v.id)
    (hfresh : oneGraph.Fresh s.database "g" (oneGraph.graphTables "g")) (hscratch : s.CanScratch) :
    ∃ t, (oneGraph.issueAll s [addVertex, searchFromGraph]).database.find?
        (oneGraph.graphTables "g").vertices = some t ∧ .text "a" ∈ t.values "hash" := by
  obtain ⟨t, ht, ha⟩ := mem_of_addVertex hw hvertex hfresh hscratch
  rw [show [addVertex, searchFromGraph] = [addVertex] ++ [searchFromGraph] from rfl,
    issueAll_append, show oneGraph.issueAll s [addVertex] = oneGraph.issue s addVertex from rfl]
  obtain ⟨more, ht'⟩ := issue_grows (s := oneGraph.issue s addVertex) (i := searchFromGraph) rfl ht
  refine ⟨t.append more, ht', ?_⟩
  rw [Table.values, Table.append, List.map_append]
  exact List.mem_append_left _ ha

end Environment
end Provenance
