-- SUMMARY: Two runs of one instruction whose tables and source graphs are alike.
import Provenance.Proofs.TwoRuns
import Provenance.Proofs.ValueOrder
import Provenance.Proofs.Writes
import Mathlib.Data.List.Forall2

/-!
# Counterparts

Two runs of one instruction, on two databases and maybe with other source graphs, go alike as soon as
everything that the instruction reads through its handles is alike. `Reflects` says what has to be alike
about tables that are counterparts of each other, `Takes` what about a table that both runs write to.

The ids in counterpart tables may stand in another order, provided that the order of values tells them
apart: whatever is written or answered has been grouped before, and groups are sorted.
-/
namespace Provenance

open Program

/-! ## Ids in another order -/

/-- The same values, perhaps in another order. In that case all of them have the property `P`. -/
def Value.Reordered (P : Value → Prop) (vs vs' : List Value) : Prop :=
  vs = vs' ∨ (vs.Perm vs' ∧ ∀ v ∈ vs, P v)

namespace Value.Reordered

variable {P : Value → Prop} {vs vs' : List Value}

theorem refl (vs : List Value) : Reordered P vs vs := .inl rfl

theorem perm (h : Reordered P vs vs') : vs.Perm vs' := by
  obtain rfl | ⟨h, _⟩ := h
  · exact .refl vs
  · exact h

theorem filter (h : Reordered P vs vs') (f : Value → Bool) :
    Reordered P (vs.filter f) (vs'.filter f) := by
  obtain rfl | ⟨h, hP⟩ := h
  · exact .refl _
  · exact .inr ⟨h.filter f, fun v hv => hP v (List.mem_filter.mp hv).1⟩

theorem map (h : Reordered P vs vs') {f : Value → Value} (hf : ∀ v, P v → f v = v) :
    Reordered P (vs.map f) (vs'.map f) := by
  obtain rfl | ⟨h, hP⟩ := h
  · exact .refl _
  · refine .inr ⟨h.map f, fun v hv => ?_⟩
    obtain ⟨w, hw, rfl⟩ := List.mem_map.mp hv
    rw [hf w (hP w hw)]
    exact hP w hw

/-- The values that follow need the property only if the first ones have it. -/
theorem append (h : Reordered P vs vs') {more : List Value}
    (hmore : ∀ v w, P w → v ∈ more → P v) : Reordered P (vs ++ more) (vs' ++ more) := by
  obtain rfl | ⟨h, hP⟩ := h
  · exact .refl _
  · cases vs with
    | nil =>
      obtain rfl : vs' = [] := h.nil_eq.symm
      exact .refl _
    | cons w vs =>
      refine .inr ⟨h.append_right more, fun v hv => ?_⟩
      rcases List.mem_append.mp hv with hv | hv
      · exact hP v hv
      · exact hmore v w (hP w (by simp)) hv

theorem isIn_eq (h : Reordered P vs vs') (v : Value) : v.isIn vs = v.isIn vs' := by
  have hempty : vs.isEmpty = vs'.isEmpty := by
    rw [Bool.eq_iff_iff, List.isEmpty_iff, List.isEmpty_iff]
    exact ⟨fun hnil => (hnil ▸ h.perm).nil_eq.symm, fun hnil => (hnil ▸ h.perm).eq_nil⟩
  have hmem (w : Value) : w ∈ vs ↔ w ∈ vs' := h.perm.mem_iff
  simp only [isIn, hempty, hmem]

/-- Values that the order tells apart are grouped in the same way. -/
theorem groups_eq (hP : Ordered P) (h : Reordered P vs vs') : groups vs = groups vs' := by
  obtain rfl | ⟨h, hall⟩ := h
  · rfl
  · exact hP.groups_congr (fun _ => h.mem_iff) hall

end Value.Reordered

/-- Cells that are compared in the same way, with values as `Value.Reordered` says. -/
structure Cells.SameIds (P : Value → Prop) (c c' : Cells) : Prop where
  affinity : c.affinity = c'.affinity
  values : Value.Reordered P c.values c'.values

namespace Cells.SameIds

variable {P : Value → Prop} {c c' d d' : Cells}

theorem refl (c : Cells) : SameIds P c c := ⟨rfl, .refl _⟩

theorem of_eq (h : c = c') : SameIds P c c' := h ▸ .refl c

theorem isIn_eq (h : SameIds P d d') (form : Affinity) (v : Value) :
    v.isIn (d.values.map form.store) = v.isIn (d'.values.map form.store) := by
  have hperm := h.values.perm.map form.store
  exact (Value.Reordered.isIn_eq (P := fun _ => True) (.inr ⟨hperm, fun _ _ => trivial⟩) v)

theorem within (h : SameIds P c c') (h' : SameIds P d d') :
    SameIds P (c.within d) (c'.within d') := by
  refine ⟨h.affinity, ?_⟩
  simp only [Cells.within, Value.memberOf, h.affinity, h'.affinity, h'.isIn_eq]
  exact h.values.filter _

theorem within_eq (h : SameIds P d d') (c : Cells) : c.within d = c.within d' := by
  simp only [Cells.within, Value.memberOf, h.affinity, h.isIn_eq]

theorem without (h : SameIds P c c') (h' : SameIds P d d') :
    SameIds P (c.without d) (c'.without d') := by
  refine ⟨h.affinity, ?_⟩
  simp only [Cells.without, Value.absentFrom, h.affinity, h'.affinity, h'.isIn_eq]
  exact h.values.filter _

end Cells.SameIds

/-- Nulls are within nothing. -/
theorem Cells.mem_within {c d : Cells} {v : Value} (h : v ∈ (c.within d).values) :
    v ∈ c.values ∧ v ≠ .null := by
  obtain ⟨hv, hmember⟩ := List.mem_filter.mp h
  refine ⟨hv, fun hnull => (Value.memberOf_iff.mp hmember).1 ?_⟩
  rw [hnull, Affinity.store_null]

theorem Schema.sameIds_scratchIds {schema : Schema} {P : Value → Prop} {vs vs' : List Value}
    (hP : ∀ v, P v → schema.idAffinity.store v = v) (h : Value.Reordered P vs vs') :
    Cells.SameIds P (schema.scratchIds vs) (schema.scratchIds vs') :=
  ⟨rfl, h.map hP⟩

/-! ## What has to be alike -/

namespace Environment

/-- Everything that is read from a pair of databases in the relation `R` is alike: from counterpart tables
of ids (`T`) and within counterpart restrictions (`S`). -/
structure Reflects (env : Environment) (R : Database → Database → Prop) (P : Value → Prop)
    (T : Element → String → String → Prop) (S : Element → Option String → Option String → Prop) :
    Prop where
  ordered : Value.Ordered P
  stored : ∀ v, P v → env.schema.idAffinity.store v = v
  /-- There is no restriction in both. -/
  whole : S .edge none none
  ids : ∀ {db db' e table table'}, R db db' → T e table table' →
    Except.Alike (Cells.SameIds P) (env.schema.ids db table) (env.schema.ids db' table')
  size : ∀ {db db' e table table'}, R db db' → T e table table' →
    Except.Alike (fun t t' => t.rows.length = t'.rows.length) (db.table table) (db'.table table')
  annotated : ∀ {db db'} e, R db db' →
    env.schema.ids db (env.schema.annotationTable e) =
      env.schema.ids db' (env.schema.annotationTable e)
  arcs : ∀ {db db' table? table?'}, R db db' → S .edge table? table?' →
    env.arcs db table? = env.arcs db' table?'
  ends : ∀ {db db' table table' column}, R db db' → T .edge table table' →
    column ∈ env.endpointColumns .both →
    Except.Alike (fun c c' => c = c' ∧ ∀ v w, P w → v ∈ c.values → v ≠ .null → P v)
      (env.endpointsIn db table column) (env.endpointsIn db' table' column)

/-- The tables and the restrictions of two graphs are counterparts. -/
structure Counterparts (env : Environment) (T : Element → String → String → Prop)
    (S : Element → Option String → Option String → Prop) (g g' : GraphRef) : Prop where
  tables : Except.Alike (fun t t' => ∀ e, T e (t.part e) (t'.part e)) (env.resolve g) (env.resolve g')
  restriction : ∀ e, Except.Alike (S e) (env.restriction? g e) (env.restriction? g' e)

/-- Both runs add ids to the table, and see the same ids in it. -/
structure Takes (env : Environment) (R : Database → Database → Prop) (table : String) : Prop where
  ids : ∀ {db db'}, R db db' → env.schema.ids db table = env.schema.ids db' table
  insert : ∀ {db db'} vs, R db db' →
    Except.Alike R (db.insertColumn table env.schema.idColumn vs)
      (db'.insertColumn table env.schema.idColumn vs)

end Environment

/-- Both runs may make the table anew. -/
structure Database.Remade (R : Database → Database → Prop) (name : String) : Prop where
  drop : ∀ {db db'}, R db db' → R (db.drop name) (db'.drop name)
  create : ∀ {db db'} columns, R db db' →
    Except.Alike R (db.create name columns) (db'.create name columns)

/-- Both runs find the same table under the name, and may put another in its place. -/
structure Database.Shared (R : Database → Database → Prop) (name : String) : Prop where
  find? : ∀ {db db'}, R db db' → db.find? name = db'.find? name
  put : ∀ {db db'} t, R db db' → R (db.put name t) (db'.put name t)
  drop : ∀ {db db'}, R db db' → R (db.drop name) (db'.drop name)

namespace Database.Shared

variable {R : Database → Database → Prop} {name : String} {db db' : Database}

theorem tableWith (h : Shared R name) (hR : R db db') (columns : List String) :
    db.tableWith name columns = db'.tableWith name columns := by
  simp only [Database.tableWith, Database.table, h.find? hR]

theorem create (h : Shared R name) (hR : R db db') (columns : List Column) :
    Except.Alike R (db.create name columns) (db'.create name columns) := by
  unfold Database.create
  dsimp only
  rw [h.find? hR]
  split
  · exact .error _
  · split
    · exact .error _
    · split
      · exact .error _
      · exact .ok (h.put _ hR)

theorem insertMetadata (h : Shared R name) (hR : R db db') (rows : List Row) :
    Except.Alike R (db.insertMetadata name rows) (db'.insertMetadata name rows) := by
  unfold Database.insertMetadata
  rw [h.tableWith hR]
  refine .bind (.of_eq rfl) fun t t' _ _ ht => ?_
  subst ht
  exact .ok (h.put _ hR)

theorem takes (h : Shared R name) (env : Environment) : env.Takes R name where
  ids hR := Schema.ids_congr (h.find? hR)
  insert vs hR := by
    unfold Database.insertColumn
    rw [h.tableWith hR]
    refine .bind (.of_eq rfl) fun t t' _ _ ht => ?_
    subst ht
    exact .ok (h.put _ hR)

theorem remade (h : Shared R name) : Remade R name := ⟨h.drop, fun columns hR => h.create hR columns⟩

end Database.Shared

/-! ## Statements -/

namespace Program.Alike

variable {R : Database → Database → Prop} {o : Origin} {phase : Phase}
  {env : Environment} {table : String}

theorem insertIds {select select' : Database → Except Error (List Value)}
    (htable : env.Takes R table) (h : ∀ {db db'}, R db db' → select db = select' db') :
    Alike R o phase (fun _ _ => True) (env.schema.insertIds table select)
      (env.schema.insertIds table select') := by
  refine .update fun db db' hR => .bind (.of_eq (h hR)) fun vs vs' _ _ hvs => ?_
  subst hvs
  exact htable.insert vs hR

theorem insertNewIds {P : Value → Prop} {select select' : Database → Except Error Cells}
    (hP : Value.Ordered P) (htable : env.Takes R table)
    (h : ∀ {db db'}, R db db' → Except.Alike (Cells.SameIds P) (select db) (select' db')) :
    Alike R o phase (fun _ _ => True) (env.schema.insertNewIds table select)
      (env.schema.insertNewIds table select') := by
  refine .insertIds htable fun {db db'} hR => ?_
  apply Except.Alike.eq
  refine .bind (.of_eq (htable.ids hR)) fun present present' _ _ hpresent => ?_
  refine .bind (h hR) fun found found' _ _ hfound => ?_
  subst hpresent
  exact .ok ((hfound.without (.refl present)).values.groups_eq hP)

theorem createTable (htable : Database.Remade R table) (columns : List Column) (replace : Bool) :
    Alike R o phase (fun _ _ => True) (Program.createTable table columns replace)
      (Program.createTable table columns replace) := by
  have hcreate : Alike R o phase (fun _ _ => True)
      (Program.update fun db => db.create table columns)
      (Program.update fun db => db.create table columns) :=
    .update fun _ _ hR => htable.create columns hR
  unfold Program.createTable
  cases replace with
  | false => exact hcreate
  | true => exact .bind (.update fun _ _ hR => .ok (htable.drop hR)) fun _ _ _ => hcreate

theorem overwriteTable {lhs rhs : String} (htable : Database.Shared R table)
    (hlhs : Database.Shared R lhs) (hrhs : Database.Shared R rhs) :
    Alike R o phase (fun _ _ => True) (Environment.overwriteTable table lhs rhs)
      (Environment.overwriteTable table lhs rhs) := by
  refine .bind (q := fun _ _ => True) (.update fun db db' hR => ?_)
    fun _ _ _ => .update fun db db' hR => ?_
  · rw [hrhs.tableWith hR, hlhs.tableWith hR]
    refine .bind (.of_eq rfl) fun right _ _ _ hright => .bind (.of_eq rfl) fun left _ _ _ hleft => ?_
    subst hright hleft
    exact htable.insertMetadata hR _
  · rw [hrhs.tableWith hR]
    refine .bind (.of_eq rfl) fun right _ _ _ hright => ?_
    subst hright
    exact htable.insertMetadata hR _

theorem writing {m m' : Program Unit} (h : Alike R o phase (fun _ _ => True) m m') :
    Alike R o phase (· = ·) (Instruction.writing m) (Instruction.writing m') :=
  .bind h fun _ _ _ => .pure rfl

end Program.Alike

end Provenance
