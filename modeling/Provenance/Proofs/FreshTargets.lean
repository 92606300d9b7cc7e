-- SUMMARY: Graphs whose tables are made anew, and elements given to them by id.
import Provenance.Proofs.GraphContents
import Provenance.Instruction.Selection
import Provenance.Instruction.SetAlgebra

/-!
# Fresh targets

A graph whose tables are made anew is a fresh target, as long as graphs have the tables that are
named after them. What is then given by id is added to it, if it occurs among the annotations.
-/
namespace Provenance

/-! ## New tables -/

theorem Database.put_drop (db : Database) (name : String) (t : Table) :
    (db.drop name).put name t = db.put name t := by
  simp [Database.put, Database.drop, List.filter_filter]

/-- A table may be created with the columns. -/
structure CanHold (columns : List Column) : Prop where
  some : columns ≠ []
  few : columns.length ≤ Sql.columnLimit
  writable : (columns.map (·.name)).all Name.isWritable = true
  distinct : Name.allDistinct (columns.map (·.name)) = true

theorem Database.create_drop {db : Database} {name : String} {columns : List Column}
    (hname : Name.isGivable name = true) (hcolumns : CanHold columns) :
    (db.drop name).create name columns = .ok (db.put name ⟨columns, []⟩) := by
  have hfree : (db.drop name).find? name = none := by simp [Database.find?_drop]
  have hfew := Nat.not_lt.mpr hcolumns.few
  simp [Database.create, hfree, hname, hcolumns.some, hfew, hcolumns.writable, hcolumns.distinct,
    Database.put_drop]

namespace Program

variable {s : Store} {table : String} {columns : List Column}

theorem wp.createTable {Q : Unit → Store → Prop} (hname : Name.isGivable table = true)
    (hcolumns : CanHold columns)
    (hQ : Q () { s with database := s.database.put table ⟨columns, []⟩ }) :
    wp (Program.createTable table columns true) Q s := by
  unfold Program.createTable
  rw [if_pos rfl]
  exact .bind (.update rfl (.update (Database.create_drop hname hcolumns) hQ))

end Program

/-- A text is kept as a text or as the number that it is. -/
theorem Affinity.store_text_ne_null (a : Affinity) (text : String) : a.store (.text text) ≠ .null := by
  cases hread : Number.ofNumericText? text <;> cases a <;> simp [store, Value.asText, hread]

/-! ## Fresh targets -/

theorem Name.folded_append (a b : String) : folded (a ++ b) = folded a ++ folded b := by
  simp [folded, Text.lower]

namespace Environment

variable {env : Environment} {s : Store} {name target : String} {tables : TablePair}

/-- Every graph has the tables that are named after it. -/
def OwnTables (env : Environment) : Prop :=
  ∀ slot ∈ env.graphs.slots, slot.2 = env.graphTables slot.1

theorem ownTables_of_create {schema : Schema} {stem : Option String}
    (h : create schema stem = .ok env) : env.OwnTables := by
  unfold create at h
  cases hstem : handleName? stem with
  | none => simp [hstem] at h
  | some stem' =>
    rw [hstem] at h
    obtain rfl := Except.ok.inj h
    exact fun slot hslot => absurd hslot (by simp [Registry.empty])

theorem OwnTables.addGraph (h : env.OwnTables) : (env.addGraph name).OwnTables := by
  intro slot hslot
  simp only [Environment.addGraph, Registry.register] at hslot
  split at hslot
  · exact h slot hslot
  · cases List.mem_append.mp hslot with
    | inl hslot =>
      exact h slot hslot
    | inr hslot =>
      rw [List.mem_singleton.mp hslot]
      rfl

theorem OwnTables.resolve (h : env.OwnTables) (hr : env.resolve (.named name) = .ok tables) :
    tables = env.graphTables name := by
  cases hfind : env.graphs.find? name with
  | none => simp [Environment.resolve, hfind] at hr
  | some found =>
    obtain rfl : found = tables := by simpa [Environment.resolve, hfind] using hr
    obtain ⟨before, after, hslots, _⟩ := List.lookup_eq_some_iff.mp hfind
    exact h (name, found) (by simp [hslots])

/-- Tables of vertices and tables of edges end in different words. -/
theorem folded_graphTables_ne (env : Environment) (name name' : String) {e e' : Element}
    (h : e ≠ e') :
    Name.folded ((env.graphTables name).part e) ≠
      Name.folded ((env.graphTables name').part e') := by
  have hends (a b : String) : Name.folded (a ++ "_vertex") ≠ Name.folded (b ++ "_edge") := by
    intro heq
    -- the last letters of the two words differ
    have hv : (Name.folded "_vertex").toList.getLast? = some 'x' := by decide
    have he : (Name.folded "_edge").toList.getLast? = some 'e' := by decide
    have hlast := congrArg (fun s => s.toList.getLast?) heq
    simp [Name.folded_append, List.getLast?_append, hv, he] at hlast
  cases e with
  | vertex =>
    cases e' with
    | vertex => exact absurd rfl h
    | edge => exact hends _ _
  | edge =>
    cases e' with
    | vertex => exact (hends _ _).symm
    | edge => exact absurd rfl h

theorem isGivable_graphTables (hstem : Name.isGivable (env.stem ++ "_") = true)
    (hname : Name.isWritable name = true) (e : Element) :
    Name.isGivable ((env.graphTables name).part e) = true := by
  have hrest (word : String) (hword : Name.isWritable word = true) :
      Name.isGivable (env.stem ++ "_graph_" ++ name ++ word) = true := by
    -- the beginning up to the first underscore decides whether a name may be given
    have hparts : env.stem ++ "_graph_" ++ name ++ word =
        env.stem ++ "_" ++ ("graph_" ++ name ++ word) := by
      rw [show "_graph_" = "_" ++ "graph_" from rfl]
      simp only [String.append_assoc]
    rw [hparts]
    apply Name.isGivable_append hstem
    simp_all [Name.isWritable]
  cases e with
  | vertex => exact hrest "_vertex" (by decide)
  | edge => exact hrest "_edge" (by decide)

/-- Tables made anew are those of a fresh target, unless they are the annotation tables. -/
theorem OwnTables.fresh {db : Database} (h : env.OwnTables)
    (hresolves : env.resolve (.named target) = .ok tables)
    (hmade : ∀ e, db.find? (tables.part e) = some ⟨env.schema.idColumns, []⟩)
    (hbase : ∀ e e', Name.folded (env.schema.annotationTable e) ≠ Name.folded (tables.part e')) :
    env.Fresh db target tables := by
  refine ⟨hresolves, hmade, hbase .edge .edge, fun g others hr e e' hne => ?_⟩
  cases g with
  | base =>
    obtain rfl := Except.ok.inj hr
    have hpart : TablePair.part ⟨env.schema.vertexTable, env.schema.edgeTable⟩ e =
      env.schema.annotationTable e := by cases e <;> rfl
    rw [hpart]
    exact hbase e e'
  | named name =>
    rw [h.resolve hr, h.resolve hresolves]
    exact folded_graphTables_ne env name target hne

theorem canHold_idColumns {schema : Schema} (h : Name.isWritable schema.idColumn = true) :
    CanHold schema.idColumns where
  some := by simp [Schema.idColumns]
  few := by simp [Schema.idColumns, Sql.columnLimit]
  writable := by simpa [Schema.idColumns] using h
  distinct := by simp [Schema.idColumns, Name.allDistinct, List.eraseDups_cons]

/-- A graph whose tables are made anew is a fresh target, and all other tables stay as they are. -/
theorem wp_createEmpty (hown : env.OwnTables) (htarget : env.resolve (.named target) = .ok tables)
    (hstem : Name.isGivable (env.stem ++ "_") = true) (hname : Name.isWritable target = true)
    (hid : Name.isWritable env.schema.idColumn = true)
    (hbase : ∀ e e', Name.folded (env.schema.annotationTable e) ≠ Name.folded (tables.part e')) :
    (env.createEmpty (.named target)).wp
      (fun _ s' => env.Fresh s'.database target tables ∧
        Database.SameBut [tables.vertices, tables.edges] s.database s'.database ∧
        s'.scratchStem = s.scratchStem) s := by
  obtain rfl := hown.resolve htarget
  have hgivable := isGivable_graphTables hstem hname
  have hcolumns := canHold_idColumns hid
  unfold createEmpty
  refine .bind (.ofExcept htarget (.bind (.createTable (hgivable .vertex) hcolumns
    (.createTable (hgivable .edge) hcolumns ⟨hown.fresh htarget ?_ hbase, ?_, rfl⟩))))
  · have hne := folded_graphTables_ne env target target (show Element.vertex ≠ .edge by simp)
    intro e
    cases e with
    | vertex => rw [Database.find?_put, if_neg hne, Database.find?_put, if_pos rfl]
    | edge => rw [Database.find?_put, if_pos rfl]
  · exact ((Database.SameBut.put _ _ _).mono (by simp)).trans
      ((Database.SameBut.put _ _ _).mono (by simp))

/-- Given ids are added to what a graph lists, each once, if they are not too long and the column keeps
them as ids that occur among the annotations. -/
theorem wp_insertGiven_more {e : Element} {ids : List String} {present : List Value}
    {p : Value → Prop} (hscratch : s.CanScratch)
    (htarget : env.resolve (.named target) = .ok tables)
    (hlists : env.schema.ListsOnce s.database (tables.part e) p) (hnull : ¬ p .null)
    (hpresent : env.schema.Lists s.database (env.schema.annotationTable e) present) :
    (env.insertGiven e (.named target) ids).wp
      (fun _ s' => env.schema.ListsOnce s'.database (tables.part e)
          (fun v => p v ∨ v ∈ present ∧ ∃ id ∈ ids, id.length ≤ longestGivenId ∧
            env.schema.idAffinity.store (.text id) = v) ∧
        Database.SameBut [tables.part e] s.database s'.database ∧
        s'.scratchStem = s.scratchStem) s := by
  let wanted := ids.filter (·.length ≤ longestGivenId)
  let given := env.schema.scratchIds (wanted.map .text)
  have hmem (v : Value) : v ∈ given.values ↔
      ∃ id ∈ ids, id.length ≤ longestGivenId ∧ env.schema.idAffinity.store (.text id) = v := by
    simp [given, wanted, Schema.scratchIds, Cells.ofValues, and_assoc]
  have hfound (v : Value) : v ∈ present.filter (·.memberOf given.values) ↔
      v ∈ present ∧ ∃ id ∈ ids, id.length ≤ longestGivenId ∧
        env.schema.idAffinity.store (.text id) = v := by
    rw [List.mem_filter, Value.memberOf_iff, hmem]
    refine and_congr_right fun _ => and_iff_right_of_imp ?_
    rintro ⟨id, _, _, rfl⟩
    exact Affinity.store_text_ne_null _ id
  have hselect {db : Database} (hdb : db = s.database) : (do
      return (← env.schema.ids db (env.schema.annotationTable e)).within given) =
        (.ok ⟨env.schema.idAffinity, present.filter (·.memberOf given.values)⟩ :
          Except Error Cells) := by
    have haffinity : given.affinity = env.schema.idAffinity := rfl
    rw [hdb, hpresent.ids]
    simp [Cells.within, haffinity]
  unfold insertGiven
  refine .bind (.ofExcept htarget ?_)
  -- if no id is short enough, no statement is run
  by_cases hnone : (ids.filter (·.length ≤ longestGivenId)).isEmpty = true
  · simp only [hnone, if_true]
    refine .pure ⟨hlists.congr fun v => (or_iff_left_of_imp fun hv => ?_).symm, .refl _ _, rfl⟩
    have hnothing : given.values = [] := by
      simp [given, show wanted = [] from List.isEmpty_iff.mp hnone, Schema.scratchIds, Cells.ofValues]
    exact absurd ((hmem v).mpr hv.2) (by simp [hnothing])
  · simp only [hnone]
    refine .withScratch fun request s₁ hs₁ => .bind (.createScratch (hs₁.canScratch hscratch)
      (by decide) fun s₂ hs₂ => ?_)
    have hs₂ := hs₁.trans hs₂
    refine .insertNewIds (hs₂.database ▸ hlists) hnull (hselect hs₂.database) ?_ ?_
      fun db hl hs s₃ hs₃ => ?_
    · exact fun v hv => hpresent.keeps v ((hfound v).mp hv).1
    · intro hin
      obtain ⟨_, id, _, _, hstored⟩ := (hfound _).mp hin
      exact Affinity.store_text_ne_null _ id hstored
    · rw [hs₃.database]
      refine ⟨hl.congr fun v => ?_, hs₂.database ▸ hs, hs₃.stem.trans hs₂.stem⟩
      rw [hfound]

/-- Given ids are added to a fresh target, each once, if they are not too long and occur among the
annotations. -/
theorem wp_insertGiven {e : Element} {ids : List String} {present : List Value}
    (hscratch : s.CanScratch) (htarget : env.Fresh s.database target tables)
    (hpresent : env.schema.Lists s.database (env.schema.annotationTable e) present)
    (htext : env.schema.idAffinity = .text) :
    (env.insertGiven e (.named target) ids).wp
      (fun _ s' => env.schema.ListsOnce s'.database (tables.part e)
          (fun v => v ∈ present ∧ ∃ id ∈ ids, id.length ≤ longestGivenId ∧ .text id = v) ∧
        Database.SameBut [tables.part e] s.database s'.database ∧
        s'.scratchStem = s.scratchStem) s := by
  refine (wp_insertGiven_more hscratch htarget.resolves (htarget.listsOnce e) (by simp)
    hpresent).mono fun _ s' h => ⟨h.1.congr fun v => ?_, h.2⟩
  rw [htext, false_or]
  rfl

end Environment

end Provenance
