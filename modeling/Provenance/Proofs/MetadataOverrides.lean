-- SUMMARY: The laws of metadata that override other metadata.
import Provenance.Proofs.Conjunctions
import Provenance.Proofs.HandleTables
import Mathlib.Data.Multiset.UnionInter

/-!
# Metadata that override other metadata

Metadata are a bag of tags, and one of them overrides another: what it has of its own, and those tags of
the other for whose id and name it has none. This is associative, since a tag that is overridden by an
overridden one is overridden itself. Where ids and names are never null, no tag outlives being overridden
by itself.
-/
namespace Provenance

open Program

/-! ## Tags -/

/-- An element, known by its id, has a value under a name. -/
structure Tag where
  id : Value
  name : Value
  value : Value
  deriving DecidableEq

namespace Tag

variable {x y z : Tag} {xs ys zs : Multiset Tag}

def key (x : Tag) : Value × Value := (x.id, x.name)

/-- Neither the id nor the name is null. -/
def IsComplete (x : Tag) : Prop := x.id ≠ .null ∧ x.name ≠ .null

instance (x : Tag) : Decidable x.IsComplete := inferInstanceAs (Decidable (_ ∧ _))

/-- The tag is about the same element and name as the other. Nulls are not the same as anything. -/
def Overrides (y x : Tag) : Prop := x.IsComplete ∧ y.key = x.key

instance (y x : Tag) : Decidable (y.Overrides x) := inferInstanceAs (Decidable (_ ∧ _))

theorem Overrides.trans (h : z.Overrides y) (h' : y.Overrides x) : z.Overrides x :=
  ⟨h'.1, h.2.trans h'.2⟩

/-- No tag of the bag is about the same element and name. -/
def IsFreeIn (x : Tag) (ys : Multiset Tag) : Prop := ∀ y ∈ ys, ¬ y.Overrides x

instance (x : Tag) (ys : Multiset Tag) : Decidable (x.IsFreeIn ys) :=
  inferInstanceAs (Decidable (∀ y ∈ ys, _))

/-- All tags of the second bag, and those of the first that it leaves free. -/
def override (xs ys : Multiset Tag) : Multiset Tag := xs.filter (·.IsFreeIn ys) + ys

/-- Tags that are overridden need not be asked: what they would override is overridden by what took their
place. -/
theorem isFreeIn_override_iff : x.IsFreeIn (override ys zs) ↔ x.IsFreeIn zs ∧ x.IsFreeIn ys := by
  constructor
  · intro h
    have hzs : x.IsFreeIn zs := fun z hz => h z (Multiset.mem_add.mpr (.inr hz))
    refine ⟨hzs, fun y hy hyx => ?_⟩
    have hfree : y.IsFreeIn zs := fun z hz hzy => hzs z hz (hzy.trans hyx)
    exact h y (Multiset.mem_add.mpr (.inl (Multiset.mem_filter.mpr ⟨hy, hfree⟩))) hyx
  · rintro ⟨hzs, hys⟩ w hw
    rcases Multiset.mem_add.mp hw with hw | hw
    · exact hys w (Multiset.mem_of_mem_filter hw)
    · exact hzs w hw

theorem override_assoc (xs ys zs : Multiset Tag) :
    override (override xs ys) zs = override xs (override ys zs) :=
  calc override (override xs ys) zs
    _ = (xs.filter (·.IsFreeIn ys)).filter (·.IsFreeIn zs) + ys.filter (·.IsFreeIn zs) + zs := by
      rw [override, override, Multiset.filter_add]
    _ = xs.filter (·.IsFreeIn (override ys zs)) + ys.filter (·.IsFreeIn zs) + zs := by
      rw [Multiset.filter_filter, Multiset.filter_congr fun x _ => isFreeIn_override_iff.symm]
    _ = override xs (override ys zs) := by rw [override, override, add_assoc]

theorem override_self (h : ∀ x ∈ xs, x.IsComplete) : override xs xs = xs := by
  have hnone : xs.filter (·.IsFreeIn xs) = 0 :=
    Multiset.filter_eq_nil.mpr fun x hx hfree => hfree x hx ⟨h x hx, rfl⟩
  rw [override, hnone, zero_add]

/-- No two tags are about the same element and name, and all have both. -/
structure IsKeyed (xs : Multiset Tag) : Prop where
  complete : ∀ x ∈ xs, x.IsComplete
  nodup : (xs.map key).Nodup

instance (xs : Multiset Tag) : Decidable (IsKeyed xs) :=
  decidable_of_iff (_ ∧ _) ⟨fun h => ⟨h.1, h.2⟩, fun h => ⟨h.complete, h.nodup⟩⟩

theorem IsKeyed.override (hx : IsKeyed xs) (hy : IsKeyed ys) : IsKeyed (override xs ys) := by
  constructor
  · intro x h
    rcases Multiset.mem_add.mp h with h | h
    · exact hx.complete x (Multiset.mem_of_mem_filter h)
    · exact hy.complete x h
  · have hkept : (xs.filter (·.IsFreeIn ys)).map key ≤ xs.map key :=
      Multiset.map_le_map (Multiset.filter_le _ xs)
    rw [Tag.override, Multiset.map_add, Multiset.nodup_add]
    -- a key on both sides would be that of a tag that is not free
    refine ⟨Multiset.nodup_of_le hkept hx.nodup, hy.nodup, Multiset.disjoint_left.mpr ?_⟩
    intro k hk hk'
    obtain ⟨x, h, rfl⟩ := Multiset.mem_map.mp hk
    obtain ⟨y, h', heq⟩ := Multiset.mem_map.mp hk'
    obtain ⟨h, hfree⟩ := Multiset.mem_filter.mp h
    exact hfree y h' ⟨hx.complete x h, heq⟩

end Tag

/-! ## Tables of metadata -/

/-- The tag that a row holds. -/
def Row.tag (r : Row) : Tag := ⟨r.get "id", r.get "name", r.get "value"⟩

/-- The tags in a table, in no order. -/
def Table.tags (t : Table) : Multiset Tag := Multiset.map Row.tag t.rows

namespace Schema

variable {schema : Schema} {left right t : Table} {r l : Row}

/-- The parts of the tag are in the form in which the columns keep them. -/
structure KeepsTag (schema : Schema) (x : Tag) : Prop where
  id : schema.idAffinity.store x.id = x.id
  name : Affinity.text.store x.name = x.name
  value : Affinity.text.store x.value = x.value

instance (schema : Schema) (x : Tag) : Decidable (schema.KeepsTag x) :=
  decidable_of_iff (_ ∧ _ ∧ _) ⟨fun h => ⟨h.1, h.2.1, h.2.2⟩, fun h => ⟨h.id, h.name, h.value⟩⟩

/-- A table as it is made for metadata, with rows that it keeps. -/
structure IsMetadata (schema : Schema) (t : Table) : Prop where
  columns : t.columns = schema.metadataColumns
  kept : ∀ x ∈ t.tags, schema.KeepsTag x

theorem sameTag_iff (hcolumns : left.columns = right.columns) :
    sameTag left right l r = true ↔ r.tag.Overrides l.tag := by
  have haffinity (column : String) : left.affinity column = right.affinity column := by
    rw [Table.affinity, Table.affinity, hcolumns]
  simp only [sameTag, metadataKeys, haffinity, Affinity.meet_self, Affinity.store_blob,
    List.all_cons, List.all_nil, Bool.and_true, Bool.and_eq_true, Value.selects_equals_iff,
    Tag.Overrides, Tag.IsComplete, Tag.key, Row.tag, Prod.mk.injEq]
  constructor
  · rintro ⟨⟨hid, hid'⟩, hname, hname'⟩
    exact ⟨⟨hid, hname⟩, hid'.symm, hname'.symm⟩
  · rintro ⟨⟨hid, hname⟩, hid', hname'⟩
    exact ⟨⟨hid, hid'.symm⟩, hname, hname'.symm⟩

theorem tags_untaggedBy (hcolumns : left.columns = right.columns) :
    Multiset.map Row.tag (untaggedBy right left) = left.tags.filter (·.IsFreeIn right.tags) := by
  have hfree (l : Row) : (!right.rows.any (sameTag left right l)) =
      decide (l.tag.IsFreeIn right.tags) := by
    rw [Bool.eq_iff_iff]
    simp [Tag.IsFreeIn, Table.tags, ← sameTag_iff hcolumns]
  have hrows : untaggedBy right left = left.rows.filter fun l => l.tag.IsFreeIn right.tags :=
    List.filter_congr fun l _ => hfree l
  rw [hrows, ← Multiset.filter_coe]
  exact (Multiset.filter_map (·.IsFreeIn right.tags) Row.tag left.rows).symm

/-- A copy of a row holds the same tag. -/
theorem IsMetadata.tag_row (h : schema.IsMetadata t) (hkept : schema.KeepsTag r.tag) :
    (t.row (metadataNames.map fun column => (column, r.get column))).tag = r.tag := by
  have hcell {column : String} (hcolumn : column ∈ metadataNames) :
      (t.row (metadataNames.map fun column => (column, r.get column))).get column =
        (Column.affinityOf schema.metadataColumns column).store (r.get column) := by
    have hmem : column ∈ schema.metadataColumns.map (·.name) := hcolumn
    rw [Table.row, h.columns, Row.get_ofCells hmem]
    simp only [metadataNames, List.mem_cons, List.not_mem_nil, or_false] at hcolumn
    rcases hcolumn with rfl | rfl | rfl <;> rfl
  simp only [Row.tag, Tag.mk.injEq]
  exact ⟨(hcell (by decide)).trans hkept.id, (hcell (by decide)).trans hkept.name,
    (hcell (by decide)).trans hkept.value⟩

theorem IsMetadata.tableWith {db : Database} {table : String} {columns : List String}
    (h : schema.IsMetadata t) (ht : db.find? table = some t) (hcolumns : columns ⊆ metadataNames) :
    db.tableWith table columns = .ok t := by
  refine Database.tableWith_of_find? ht fun column hcolumn => ?_
  have hnames : t.names = metadataNames := by
    rw [Table.names, h.columns]
    rfl
  rw [Table.has, hnames, List.contains_iff_mem]
  exact hcolumns hcolumn

/-- The table is there, is one of metadata, and holds these tags. -/
def Tagged (schema : Schema) (db : Database) (table : String) (xs : Multiset Tag) : Prop :=
  ∃ t, db.find? table = some t ∧ schema.IsMetadata t ∧ t.tags = xs

namespace Tagged

variable {db db' : Database} {table : String} {xs ys : Multiset Tag} {names : List String}

theorem of_same (h : schema.Tagged db table xs) (hs : Database.SameBut names db db')
    (ho : ∀ name ∈ names, Name.folded table ≠ Name.folded name) : schema.Tagged db' table xs := by
  obtain ⟨t, ht, hmetadata⟩ := h
  exact ⟨t, (hs table ho).trans ht, hmetadata⟩

/-- Copied rows bring their tags. -/
theorem insertMetadata {rows : List Row} (h : schema.Tagged db table xs)
    (hkept : ∀ r ∈ rows, schema.KeepsTag r.tag) :
    ∃ db', db.insertMetadata table rows = .ok db' ∧
      schema.Tagged db' table (xs + Multiset.map Row.tag rows) ∧ Database.SameBut [table] db db' := by
  obtain ⟨t, ht, hmetadata, rfl⟩ := h
  let copies := rows.map fun r => t.row (metadataNames.map fun column => (column, r.get column))
  have hcopies : copies.map Row.tag = rows.map Row.tag := by
    rw [List.map_map]
    exact List.map_congr_left fun r hr => hmetadata.tag_row (hkept r hr)
  have htags : (t.append copies).tags = t.tags + Multiset.map Row.tag rows := by
    simp only [Table.tags, Table.append, Multiset.map_coe, List.map_append, hcopies,
      Multiset.coe_add]
  refine ⟨db.put table (t.append copies), ?_, ⟨t.append copies, ?_, ⟨hmetadata.columns, ?_⟩, htags⟩,
    .put db table _⟩
  · rw [Database.insertMetadata, hmetadata.tableWith ht (List.Subset.refl _)]
    rfl
  · rw [Database.find?_put, if_pos rfl]
  · intro x hx
    rw [htags] at hx
    rcases Multiset.mem_add.mp hx with hx | hx
    · exact hmetadata.kept x hx
    · obtain ⟨r, hr, rfl⟩ := Multiset.mem_map.mp hx
      exact hkept r hr

end Tagged
end Schema

/-! ## Names of tables -/

theorem folded_tableName (stem : String) (kind : HandleKind) (name : String) (e : Element) :
    Name.folded (tableName stem kind name e) =
      tableName (Name.folded stem) kind (Name.folded name) e := by
  have hkind : Name.folded kind.word = kind.word := by cases kind <;> decide
  have he : Name.folded e.word = e.word := by cases e <;> decide
  have hline : Name.folded "_" = "_" := by decide
  simp only [tableName, Name.folded_append, hkind, he, hline]

theorem tableName_inj {stem name name' : String} {kind : HandleKind} {e e' : Element}
    (h : tableName stem kind name e = tableName stem kind name' e') : name = name' ∧ e = e' := by
  have hlists := congrArg String.toList h
  rw [toList_tableName, toList_tableName, List.append_cancel_left_eq] at hlists
  obtain ⟨hnames, he⟩ : name.toList = name'.toList ∧ e = e' := append_word_inj (by simpa using hlists)
  exact ⟨String.toList_injective hnames, he⟩

/-! ## Statements -/

namespace Environment

variable {env : Environment} {s : Store}

/-- Of a table whose tags are overridden and of the one that overrides them, the target gets what the
override leaves. -/
theorem wp_overwriteTable {schema : Schema} {target lhs rhs : String} {xs ys zs : Multiset Tag}
    {Q : Unit → Store → Prop} (htarget : schema.Tagged s.database target zs)
    (hlhs : schema.Tagged s.database lhs xs) (hrhs : schema.Tagged s.database rhs ys)
    (hne : Name.folded rhs ≠ Name.folded target)
    (hQ : ∀ db, schema.Tagged db target (zs + Tag.override xs ys) →
      Database.SameBut [target] s.database db → Q () { s with database := db }) :
    (overwriteTable target lhs rhs).wp Q s := by
  obtain ⟨left, hleft, hmetadata, rfl⟩ := hlhs
  obtain ⟨right, hright, hmetadata', rfl⟩ := hrhs
  have hkept : ∀ r ∈ untaggedBy right left, schema.KeepsTag r.tag := fun r hr =>
    hmetadata.kept _ (Multiset.mem_map_of_mem _ (List.mem_of_mem_filter hr))
  have hkept' : ∀ r ∈ right.rows, schema.KeepsTag r.tag := fun r hr =>
    hmetadata'.kept _ (Multiset.mem_map_of_mem _ hr)
  obtain ⟨db, hdb, htagged, hsame⟩ := htarget.insertMetadata hkept
  obtain ⟨db', hdb', htagged', hsame'⟩ := htagged.insertMetadata hkept'
  -- the table that overrides is another than the target, so it is still as it was
  have hright' : db.find? rhs = some right := (hsame rhs (by simpa using hne)).trans hright
  unfold overwriteTable
  refine .bind (.update (?_ : _ = Except.ok db) (.update (?_ : _ = Except.ok db')
    (hQ db' ?_ (hsame.trans hsame'))))
  · rw [hmetadata'.tableWith hright (by decide), hmetadata.tableWith hleft (by decide)]
    exact hdb
  · rw [hmetadata'.tableWith hright' (by decide)]
    exact hdb'
  · rw [Schema.tags_untaggedBy (hmetadata.columns.trans hmetadata'.columns.symm)] at htagged'
    rw [Tag.override, ← add_assoc]
    exact htagged'

/-! ## Metadata -/

variable {m target lhs rhs : String} {tables : TablePair} {sources : List String}
  {xs ys zs : Element → Multiset Tag} {db db' : Database}

/-- The tables of the metadata hold these tags, for vertices and for edges. -/
def HoldsTags (env : Environment) (db : Database) (m : String) (xs : Element → Multiset Tag) : Prop :=
  ∃ tables, env.resolveMetadata m = .ok tables ∧
    ∀ e, env.schema.Tagged db (tables.part e) (xs e)

/-- Metadata that can be made anew, without a table in common with any of the others. -/
structure NewMetadata (env : Environment) (target : String) (tables : TablePair)
    (others : List String) : Prop where
  resolves : env.resolveMetadata target = .ok tables
  parts : Name.folded tables.vertices ≠ Name.folded tables.edges
  givable : ∀ e, Name.isGivable (tables.part e) = true
  apart : ∀ m ∈ others, ∀ tables', env.resolveMetadata m = .ok tables' → tables'.Apart tables

/-- What is written into new metadata leaves the others alone. -/
theorem NewMetadata.holdsTags_of_same (htarget : env.NewMetadata target tables sources)
    (hm : m ∈ sources) (h : env.HoldsTags db m xs)
    (hsame : Database.SameBut [tables.vertices, tables.edges] db db') : env.HoldsTags db' m xs := by
  obtain ⟨others, hr, hxs⟩ := h
  have hapart := htarget.apart m hm others hr
  exact ⟨others, hr, fun e => (hxs e).of_same hsame (TablePair.forall_tables (hapart e))⟩

theorem NewMetadata.of_own (hown : env.OwnMetadata) (hstem : Name.isGivable (env.stem ++ "_") = true)
    (hname : Name.isWritable target = true) (hr : env.resolveMetadata target = .ok tables)
    (hothers : ∀ m ∈ sources, Name.folded m ≠ Name.folded target) :
    env.NewMetadata target tables sources := by
  obtain rfl := hown.resolveMetadata hr
  have hpart (m : String) (e : Element) :
      (env.metadataTables m).part e = tableName env.stem .metadata m e :=
    env.part_namedTables .metadata m e
  refine ⟨hr, fun heq => ?_, fun e => ?_, fun m hm tables' hr' e e' heq => ?_⟩
  · have heq : Name.folded ((env.metadataTables target).part .vertex) =
        Name.folded ((env.metadataTables target).part .edge) := heq
    rw [hpart, hpart, folded_tableName, folded_tableName] at heq
    exact absurd (tableName_inj heq).2 (by simp)
  · have hrest : Name.isWritable ("meta" ++ ("_" ++ (target ++ ("_" ++ e.word)))) = true := by
      cases e <;> simp_all [Name.isWritable, Element.word]
    rw [hpart]
    simpa only [tableName, HandleKind.word, String.append_assoc] using Name.isGivable_append hstem hrest
  · -- folding the letters of a table's name folds those of the handle in it, and no more
    obtain rfl := hown.resolveMetadata hr'
    rw [hpart, hpart, folded_tableName, folded_tableName] at heq
    exact hothers m hm (tableName_inj heq).1

theorem canHold_metadataColumns (schema : Schema) : CanHold schema.metadataColumns where
  some := by simp [Schema.metadataColumns]
  few := by simp [Schema.metadataColumns, Sql.columnLimit]
  writable := show metadataNames.all Name.isWritable = true by decide
  distinct := show Name.allDistinct metadataNames = true by decide

theorem wp_createEmptyMetadata (h : env.NewMetadata target tables sources) :
    (env.createEmptyMetadata target).wp
      (fun _ s' => env.HoldsTags s'.database target (fun _ => 0) ∧
        Database.SameBut [tables.vertices, tables.edges] s.database s'.database) s := by
  have hcolumns := canHold_metadataColumns env.schema
  have hempty {db : Database} {table : String}
      (ht : db.find? table = some ⟨env.schema.metadataColumns, []⟩) :
      env.schema.Tagged db table 0 := ⟨_, ht, ⟨rfl, by simp [Table.tags]⟩, rfl⟩
  unfold createEmptyMetadata
  refine .bind (.ofExcept h.resolves (.bind (.createTable (h.givable .vertex) hcolumns
    (.createTable (h.givable .edge) hcolumns ⟨⟨tables, h.resolves, fun e => hempty ?_⟩, ?_⟩))))
  · cases e with
    | vertex => simp only [TablePair.part, Database.find?_put, h.parts, if_false, if_true]
    | edge => simp only [TablePair.part, Database.find?_put, if_true]
  · exact ((Database.SameBut.put _ _ _).mono (by simp)).trans
      ((Database.SameBut.put _ _ _).mono (by simp))

theorem wp_overwriteMetadata (h : env.NewMetadata target tables sources) (hl : lhs ∈ sources)
    (hr : rhs ∈ sources) (htarget : env.HoldsTags s.database target zs)
    (hlhs : env.HoldsTags s.database lhs xs) (hrhs : env.HoldsTags s.database rhs ys) :
    (env.overwriteMetadata target lhs rhs).wp
      (fun _ s' => env.HoldsTags s'.database target (fun e => zs e + Tag.override (xs e) (ys e)) ∧
        Database.SameBut [tables.vertices, tables.edges] s.database s'.database) s := by
  obtain ⟨_, htables, hzs⟩ := htarget
  obtain rfl := Except.ok.inj (h.resolves.symm.trans htables)
  obtain ⟨left, hleft, hxs⟩ := hlhs
  obtain ⟨right, hright, hys⟩ := hrhs
  have hapart := h.apart lhs hl left hleft
  have hapart' := h.apart rhs hr right hright
  unfold overwriteMetadata
  refine .bind (.ofExcept h.resolves (.bind (.ofExcept hleft (.bind (.ofExcept hright (.bind
    (wp_overwriteTable (hzs .vertex) (hxs .vertex) (hys .vertex) (hapart' .vertex .vertex)
      fun db htagged hsame => ?_)))))))
  -- the tables for edges are still as they were
  have hkept {table : String} {us : Multiset Tag} (hu : env.schema.Tagged s.database table us)
      (hne : Name.folded table ≠ Name.folded tables.vertices) : env.schema.Tagged db table us :=
    hu.of_same hsame (by simpa using hne)
  refine wp_overwriteTable (hkept (hzs .edge) h.parts.symm) (hkept (hxs .edge) (hapart .edge .vertex))
    (hkept (hys .edge) (hapart' .edge .vertex)) (hapart' .edge .edge) fun db' htagged' hsame' => ?_
  refine ⟨⟨tables, h.resolves, fun e => ?_⟩, (hsame.mono ?_).trans (hsame'.mono ?_)⟩
  · cases e with
    | vertex => exact htagged.of_same hsame' (by simpa using h.parts)
    | edge => exact htagged'
  · simp
  · simp

/-! ## Runs -/

theorem issueAll_append_all [RegexLibrary] [Summation] (is js : List Instruction) :
    env.issueAll s (is ++ js) = env.issueAll (env.issueAll s is) js :=
  List.foldl_append

theorem succeeds_append [RegexLibrary] [Summation] {is js : List Instruction} :
    env.Succeeds s (is ++ js) ↔ env.Succeeds s is ∧ env.Succeeds (env.issueAll s is) js := by
  induction is generalizing s with
  | nil => exact (and_iff_right trivial).symm
  | cons i is ih => exact (and_congr_right fun _ => ih).trans (and_assoc).symm

end Environment

/-- The target is made anew and gets one metadata overridden by another. -/
def Instruction.overriding (target lhs rhs : String) : List Instruction :=
  [.createEmptyMetadata target, .overwriteMetadata target lhs rhs]

namespace Environment

open Instruction

variable {env : Environment} {s : Store} {target lhs rhs : String} {tables : TablePair}
  {sources : List String} {xs ys zs : Element → Multiset Tag}

theorem issueAll_overriding [RegexLibrary] [Summation]
    (h : env.NewMetadata target tables sources) (hl : lhs ∈ sources)
    (hr : rhs ∈ sources) (hlhs : env.HoldsTags s.database lhs xs)
    (hrhs : env.HoldsTags s.database rhs ys) :
    let after := env.issueAll s (overriding target lhs rhs)
    env.Succeeds s (overriding target lhs rhs) ∧
      env.HoldsTags after.database target (fun e => Tag.override (xs e) (ys e)) ∧
      Database.SameBut [tables.vertices, tables.edges] s.database after.database := by
  intro after
  obtain ⟨hdone, hempty, hsame⟩ := outcome_of_wp (i := .createEmptyMetadata target) rfl
    (wp_createEmptyMetadata h (s := s))
  obtain ⟨hdone', hholds, hsame'⟩ := outcome_of_wp (i := .overwriteMetadata target lhs rhs) rfl
    (wp_overwriteMetadata h hl hr hempty (h.holdsTags_of_same hl hlhs hsame)
      (h.holdsTags_of_same hr hrhs hsame))
  simp only [zero_add] at hholds
  exact ⟨⟨hdone, hdone', trivial⟩, hholds, hsame.trans hsame'⟩

/-- New metadata get the tags of one table and, of the other, those whose id and name the first has not,
as often as they are there. That is associative, keeps ids with names distinct, and changes nothing
where metadata override themselves, unless ids or names are null. -/
theorem overriding_laws [RegexLibrary] [Summation]
    {a b c : String} (ha : env.HoldsTags s.database a xs)
    (hb : env.HoldsTags s.database b ys) (hc : env.HoldsTags s.database c zs) :
    (∀ target tables, env.NewMetadata target tables [a, b] →
      env.Succeeds s (overriding target a b) ∧ ∃ us,
        env.HoldsTags (env.issueAll s (overriding target a b)).database target us ∧
        ∀ e, us e = (xs e).filter (·.IsFreeIn (ys e)) + ys e ∧
          (Tag.IsKeyed (xs e) → Tag.IsKeyed (ys e) → Tag.IsKeyed (us e))) ∧
    (∀ ab ab_c bc a_bc abTables leftTables bcTables rightTables,
      env.NewMetadata ab abTables [a, b, c] → env.NewMetadata ab_c leftTables [ab, c] →
      env.NewMetadata bc bcTables [a, b, c] → env.NewMetadata a_bc rightTables [a, bc] →
      let left := overriding ab a b ++ overriding ab_c ab c
      let right := overriding bc b c ++ overriding a_bc a bc
      env.Succeeds s left ∧ env.Succeeds s right ∧ ∃ us,
        env.HoldsTags (env.issueAll s left).database ab_c us ∧
        env.HoldsTags (env.issueAll s right).database a_bc us) ∧
    ∀ target tables, env.NewMetadata target tables [a] → (∀ e, ∀ x ∈ xs e, x.IsComplete) →
      env.Succeeds s (overriding target a a) ∧
        env.HoldsTags (env.issueAll s (overriding target a a)).database target xs := by
  refine ⟨fun target tables h => ?_, ?_, fun target tables h hcomplete => ?_⟩
  · obtain ⟨hdone, hholds, _⟩ := issueAll_overriding h (by simp) (by simp) ha hb
    exact ⟨hdone, _, hholds, fun e => ⟨rfl, Tag.IsKeyed.override⟩⟩
  · intro ab ab_c bc a_bc _ _ _ _ hab hleft hbc hright left right
    obtain ⟨hdone₁, hholds₁, hsame₁⟩ := issueAll_overriding hab (by simp) (by simp) ha hb
    obtain ⟨hdone₂, hholds₂, _⟩ := issueAll_overriding hleft (by simp) (by simp) hholds₁
      (hab.holdsTags_of_same (by simp) hc hsame₁)
    obtain ⟨hdone₃, hholds₃, hsame₃⟩ := issueAll_overriding hbc (by simp) (by simp) hb hc
    obtain ⟨hdone₄, hholds₄, _⟩ := issueAll_overriding hright (by simp) (by simp)
      (hbc.holdsTags_of_same (by simp) ha hsame₃) hholds₃
    simp only [Tag.override_assoc] at hholds₂
    rw [← issueAll_append_all] at hholds₂ hholds₄
    exact ⟨succeeds_append.mpr ⟨hdone₁, hdone₂⟩, succeeds_append.mpr ⟨hdone₃, hdone₄⟩, _, hholds₂,
      hholds₄⟩
  · obtain ⟨hdone, hholds, _⟩ := issueAll_overriding h (by simp) (by simp) ha ha
    have hself : (fun e => Tag.override (xs e) (xs e)) = xs :=
      funext fun e => Tag.override_self (hcomplete e)
    exact ⟨hdone, hself ▸ hholds⟩

end Environment

/-! ## Labels -/

namespace SmallWorld

open Environment Instruction

/-- An environment of metadata. -/
def labelling : Environment :=
  ["a", "b", "c", "ab", "ab_c", "bc", "a_bc"].foldl Environment.addMetadata
    ⟨.standard, Environment.standardStem, .empty, .empty⟩

def labelTable (tags : List Tag) : Table :=
  ⟨labelling.schema.metadataColumns,
    tags.map fun x => ⟨[("id", x.id), ("name", x.name), ("value", x.value)]⟩⟩

def label (id value : String) : Tag := ⟨.text id, .text "label", .text value⟩

/-- The labels in three metadata. The first has one vertex twice, and a label of nothing. -/
def labels : String → Element → List Tag
  | "a", .vertex => [label "p" "old", label "q" "old", label "q" "old", ⟨.null, .text "label", .null⟩]
  | "a", .edge => [label "e" "old"]
  | "b", .vertex => [label "p" "new"]
  | "b", .edge => [label "e" "new", label "f" "new"]
  | _, .vertex => [label "q" "last"]
  | _, .edge => []

def labelled : Store :=
  { start with
    database := ["a", "b", "c"].foldl (fun db m =>
      (db.put (labelling.metadataTables m).vertices (labelTable (labels m .vertex))).put
        (labelling.metadataTables m).edges (labelTable (labels m .edge))) .empty }

theorem labelled_holds {m : String} (h : m ∈ ["a", "b", "c"]) :
    labelling.HoldsTags labelled.database m fun e => labels m e := by
  simp only [List.mem_cons, List.not_mem_nil, or_false] at h
  rcases h with rfl | rfl | rfl
  all_goals
    refine ⟨_, rfl, fun e => ?_⟩
    cases e <;> exact ⟨_, rfl, ⟨rfl, by decide⟩, by decide⟩

theorem labelling_ownMetadata : labelling.OwnMetadata := by
  unfold OwnMetadata
  decide

theorem labelling_new {m : String} {others : List String}
    (hm : labelling.resolveMetadata m = .ok (labelling.metadataTables m))
    (hname : Name.isWritable m = true) (hothers : ∀ m' ∈ others, Name.folded m' ≠ Name.folded m) :
    labelling.NewMetadata m (labelling.metadataTables m) others :=
  .of_own labelling_ownMetadata (by decide) hname hm hothers

/-- The old label of one vertex is overridden, that of another and the one of nothing are not. It is the
last label that stays where three metadata override each other. -/
theorem overriding_laws_labels :
    (∃ us, labelling.HoldsTags (labelling.issueAll labelled (overriding "ab" "a" "b")).database "ab"
        us ∧ Tag.IsKeyed (us .edge) ∧
      us .vertex = ({label "q" "old", label "q" "old", ⟨.null, .text "label", .null⟩,
        label "p" "new"} : Multiset Tag)) ∧
    (∃ us, labelling.HoldsTags (labelling.issueAll labelled (overriding "ab" "a" "b" ++
        overriding "ab_c" "ab" "c")).database "ab_c" us ∧
      labelling.HoldsTags (labelling.issueAll labelled (overriding "bc" "b" "c" ++
        overriding "a_bc" "a" "bc")).database "a_bc" us) ∧
    labelling.HoldsTags (labelling.issueAll labelled (overriding "bc" "b" "b")).database "bc"
      fun e => labels "b" e := by
  have ha := labelled_holds (m := "a") (by simp)
  have hb := labelled_holds (m := "b") (by simp)
  have hc := labelled_holds (m := "c") (by simp)
  obtain ⟨hexact, hassoc, -⟩ := overriding_laws ha hb hc
  obtain ⟨-, -, hself⟩ := overriding_laws hb hb hb
  obtain ⟨-, us, hus, htags⟩ := hexact "ab" _ (labelling_new rfl (by decide) (by decide))
  obtain ⟨-, -, hboth⟩ := hassoc "ab" "ab_c" "bc" "a_bc" _ _ _ _
    (labelling_new rfl (by decide) (by decide)) (labelling_new rfl (by decide) (by decide))
    (labelling_new rfl (by decide) (by decide)) (labelling_new rfl (by decide) (by decide))
  refine ⟨⟨us, hus, (htags .edge).2 (by decide) (by decide), (htags .vertex).1.trans (by decide)⟩,
    hboth, ?_⟩
  exact (hself "bc" _ (labelling_new rfl (by decide) (by decide)) fun e => by cases e <;> decide).2

end SmallWorld
end Provenance
