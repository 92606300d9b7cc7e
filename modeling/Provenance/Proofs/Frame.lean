-- SUMMARY: All tables but those of the target stay as they are in every instruction.
import Provenance.Proofs.Writes
import Provenance.Proofs.SmallWorlds

/-!
# The frame of an instruction

Whatever an instruction does and however it ends, all tables but the two of its target stay as they
are, the annotation tables among them, and the target keeps its rows unless it is made anew. What
one statement leaves alone is read off `Write`, and a series of statements leaves alone what each
does.
-/
namespace Provenance

open Relation Program Store

/-- The tables of two handles have different names. -/
def TablePair.Apart (t t' : TablePair) : Prop :=
  ∀ e e', Name.folded (t.part e) ≠ Name.folded (t'.part e')

instance : Std.Symm TablePair.Apart where
  symm _ _ h e e' := (h e' e).symm

instance : DecidableRel TablePair.Apart := fun t t' =>
  decidable_of_iff (∀ e ∈ [Element.vertex, .edge], ∀ e' ∈ [Element.vertex, .edge],
    Name.folded (t.part e) ≠ Name.folded (t'.part e')) <| by
      have hall (e : Element) : e ∈ [Element.vertex, .edge] := by cases e <;> simp
      exact ⟨fun h e e' => h e (hall e) e' (hall e'), fun h e _ e' _ => h e e'⟩

theorem Registry.mem_slots_of_find? {r : Registry} {name : String} {tables : TablePair}
    (h : r.find? name = some tables) : (name, tables) ∈ r.slots := by
  obtain ⟨before, after, hslots, _⟩ := List.lookup_eq_some_iff.mp h
  simp [hslots]

namespace Environment

variable {env : Environment} {before db db' : Database} {a : Access} {i : Instruction}
  {s : Store} {h : Handle} {tables : TablePair} {e : Element}

theorem tablesOf_of_writable (htables : env.writableTables h = .ok tables) :
    env.tablesOf h = .ok tables := by
  cases h with
  | graph g =>
    cases g with
    | base => cases htables
    | named name => exact htables
  | metadata name => exact htables

/-! ## One statement -/

theorem Write.sameBut (h : env.Write before a db db') :
    ∃ tables, env.writableTables a.target = .ok tables ∧
      Database.SameBut [tables.vertices, tables.edges] db db' := by
  have hput (tables : TablePair) (e : Element) (db : Database) (t : Table) :
      Database.SameBut [tables.vertices, tables.edges] db (db.put (tables.part e) t) := by
    refine (Database.SameBut.put db _ t).mono ?_
    cases e <;> simp [TablePair.part]
  cases h with
  | @drop _ tables _ e htables =>
    refine ⟨tables, htables, fun other hother => ?_⟩
    have hne : Name.folded other ≠ Name.folded (tables.part e) := by
      apply hother
      cases e <;> simp [TablePair.part]
    rw [Database.find?_drop, if_neg hne]
  | create htables hdb =>
    obtain ⟨_, rfl⟩ := Database.create_eq_ok hdb
    exact ⟨_, htables, hput _ _ _ _⟩
  | insertNew htables _ _ hdb =>
    obtain ⟨_, _, _, rfl⟩ := Database.insertColumn_eq_ok hdb
    exact ⟨_, htables, hput _ _ _ _⟩
  | insertAll htables _ _ _ _ hdb =>
    obtain ⟨_, _, _, rfl⟩ := Database.insertColumn_eq_ok hdb
    exact ⟨_, htables, hput _ _ _ _⟩
  | tag htables hdb =>
    obtain ⟨_, _, _, rfl⟩ := Database.insertMetadata_eq_ok hdb
    exact ⟨_, htables, hput _ _ _ _⟩

/-- Only tables that are made anew lose rows. -/
theorem Write.grows (h : env.Write before a db db') (ha : a.makes = false) :
    Database.Grows db db' := by
  cases h with
  | drop => cases ha
  | create => cases ha
  | insertNew _ _ _ hdb =>
    obtain ⟨_, ht, _, rfl⟩ := Database.insertColumn_eq_ok hdb
    exact .put ht _
  | insertAll _ _ _ _ _ hdb =>
    obtain ⟨_, ht, _, rfl⟩ := Database.insertColumn_eq_ok hdb
    exact .put ht _
  | tag _ hdb =>
    obtain ⟨_, _, ht, rfl⟩ := Database.insertMetadata_eq_ok hdb
    exact .put ht _

/-! ## All statements of an instruction -/

/-- The table of another name is the same after all statements. -/
theorem Writes.find?_eq {name : String} (hrun : ReflTransGen (env.Writes before i) db db')
    (hother : ∀ a ∈ i.access?, ∀ tables, env.writableTables a.target = .ok tables →
      ∀ e, Name.folded name ≠ Name.folded (tables.part e)) : db'.find? name = db.find? name := by
  induction hrun with
  | refl => rfl
  | tail _ hw ih =>
    obtain ⟨a, ha, hw⟩ := hw
    obtain ⟨tables, htables, hsame⟩ := hw.sameBut
    have hne := hother a ha tables htables
    refine (hsame name ?_).trans ih
    simpa using ⟨hne .vertex, hne .edge⟩

theorem Writes.grows (hrun : ReflTransGen (env.Writes before i) db db') (hi : i.makes = false) :
    Database.Grows db db' := by
  induction hrun with
  | refl => exact .refl db
  | tail _ hw ih =>
    obtain ⟨a, ha, hw⟩ := hw
    have hmakes : a.makes = false := by
      rw [Instruction.makes, Option.mem_def.mp ha] at hi
      exact hi
    exact ih.trans (hw.grows hmakes)

/-- A fresh target stays one while the tables of another graph are written. -/
theorem Fresh.of_same {target : String} {others : TablePair} (h : env.Fresh db target tables)
    (hs : Database.SameBut [others.vertices, others.edges] db db') (hapart : tables.Apart others) :
    env.Fresh db' target tables := by
  exact ⟨h.resolves, fun e => (hs _ (TablePair.forall_tables (hapart e))).trans (h.made e), h.apart,
    h.kinds⟩

/-! ## The frame -/

/-- No two handles have a table in common. One of them is the base graph, whose tables are the
annotation tables. -/
def Apart (env : Environment) : Prop :=
  ∀ h h' tables tables', h ≠ h' → env.tablesOf h = .ok tables → env.tablesOf h' = .ok tables' →
    tables.Apart tables'

/-- What stays in the store when an instruction is carried out. -/
structure Framed (env : Environment) (i : Instruction) (db db' : Database) : Prop where
  annotations : ∀ e, db'.find? (env.schema.annotationTable e) =
    db.find? (env.schema.annotationTable e)
  others : ∀ h tables e, i.target? ≠ some h → env.tablesOf h = .ok tables →
    db'.find? (tables.part e) = db.find? (tables.part e)
  target : i.makes = false → ∀ h tables e t, i.target? = some h → env.tablesOf h = .ok tables →
    db.find? (tables.part e) = some t → ∃ more, db'.find? (tables.part e) = some (t.append more)

theorem framed_of_writes (hapart : env.Apart) (hrun : ReflTransGen (env.Writes before i) db db') :
    env.Framed i db db' := by
  refine ⟨fun e => ?_, fun h tables e hother htables => ?_, fun hi h tables e t _ htables ht => ?_⟩
  · apply Writes.find?_eq hrun
    intro a ha tables htables e'
    have hne : Handle.graph .base ≠ a.target := by
      intro hbase
      rw [← hbase] at htables
      cases htables
    have hpart := hapart _ _ _ _ hne rfl (tablesOf_of_writable htables) e e'
    cases e <;> exact hpart
  · apply Writes.find?_eq hrun
    intro a ha tables' htables' e'
    refine hapart _ _ _ _ (fun heq => hother ?_) htables (tablesOf_of_writable htables') e e'
    rw [Instruction.target?, Option.mem_def.mp ha, heq]
    rfl
  · exact Writes.grows hrun hi _ t ht

/-- The frame of every instruction, on its success and on its failure. -/
theorem run_frame [RegexLibrary] [Summation]
    (hapart : env.Apart) (hfresh : s.FreshRequests) (i : Instruction) :
    env.Framed i s.database ((i.run env).perform s).2.database ∧
      ((i.run env).perform s).2.FreshRequests ∧
      ∀ answer s', (i.run env).perform s = (.ok answer, s') → s'.scratch = s.scratch := by
  have hafter := i.run_after env s
  refine ⟨framed_of_writes hapart hafter.database, hafter.fresh hfresh, fun answer s' hrun => ?_⟩
  exact (ends.ok (i.run_leaves env s) hrun).2 hfresh

/-! ## Handles that are apart -/

/-- All handles with their tables. -/
def handles (env : Environment) : List (Handle × TablePair) :=
  (.graph .base, ⟨env.schema.vertexTable, env.schema.edgeTable⟩) ::
    (env.graphs.slots.map fun slot => (.graph (.named slot.1), slot.2)) ++
      env.metadata.slots.map fun slot => (.metadata slot.1, slot.2)

theorem mem_handles (htables : env.tablesOf h = .ok tables) : (h, tables) ∈ env.handles := by
  cases h with
  | graph g =>
    cases g with
    | base =>
      obtain rfl := Except.ok.inj htables
      simp [handles]
    | named name =>
      cases hfind : env.graphs.find? name with
      | none => simp [tablesOf, resolve, hfind] at htables
      | some found =>
        obtain rfl : found = tables := by simpa [tablesOf, resolve, hfind] using htables
        have hslot := Registry.mem_slots_of_find? hfind
        simp [handles, hslot]
  | metadata name =>
    cases hfind : env.metadata.find? name with
    | none => simp [tablesOf, resolveMetadata, hfind] at htables
    | some found =>
      obtain rfl : found = tables := by simpa [tablesOf, resolveMetadata, hfind] using htables
      have hslot := Registry.mem_slots_of_find? hfind
      simp [handles, hslot]

/-- It is enough to compare each handle with those after it. -/
theorem apart_of_pairwise (h : env.handles.Pairwise fun x y => x.2.Apart y.2) : env.Apart := by
  have hsymm : Std.Symm fun x y : Handle × TablePair => x.2.Apart y.2 :=
    ⟨fun _ _ hxy e e' => (hxy e' e).symm⟩
  intro h₁ h₂ tables₁ tables₂ hne htables₁ htables₂
  have hpair : (h₁, tables₁) ≠ (h₂, tables₂) := by simp [hne]
  have hapart : (h₁, tables₁).2.Apart (h₂, tables₂).2 :=
    h.forall (mem_handles htables₁) (mem_handles htables₂) hpair
  exact hapart

/-- A store in which a scratch table of a failed instruction was left. -/
def leftOver : Store :=
  { SmallWorld.start with
    database := Database.empty.put (SmallWorld.tables "src").vertices
      ⟨SmallWorld.environment.schema.idColumns, [⟨[("hash", .text "a")]⟩]⟩
    scratch := [⟨0, "answer"⟩]
    requests := 1 }

/-- The frame of a union, in spite of a scratch table that was left over. -/
theorem run_frame_leftOver :
    SmallWorld.environment.Apart ∧ leftOver.FreshRequests ∧
      SmallWorld.environment.Framed (.union (.named "out") (.named "src")) leftOver.database
        ((Instruction.run SmallWorld.environment (.union (.named "out") (.named "src"))).perform
          leftOver).2.database := by
  have hapart : SmallWorld.environment.Apart := apart_of_pairwise (by decide)
  have hfresh : leftOver.FreshRequests := by simp [Store.FreshRequests, leftOver]
  exact ⟨hapart, hfresh, (run_frame hapart hfresh (.union (.named "out") (.named "src"))).1⟩

end Environment
end Provenance
