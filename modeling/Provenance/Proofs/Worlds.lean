-- SUMMARY: The base graph after a world is loaded.
import Provenance.Proofs.FreshTargets
import Provenance.World

/-!
# Loaded worlds

Loading a world creates the annotation tables and fills them. Where ids are kept as texts the base
graph then has the vertices and edges of the world and no others, and its edge table keeps ids as
the columns of ids do.
-/
namespace Provenance

/-! ## Columns of texts -/

theorem Affinity.store_store_text (v : Value) :
    Affinity.text.store (Affinity.text.store v) = Affinity.text.store v := by
  cases v with
  | null => rfl
  | text s => rfl
  | num n => cases n <;> rfl

theorem Affinity.store_text_eq_null {v : Value} : Affinity.text.store v = .null ↔ v = .null := by
  cases v with
  | null => simp [Affinity.store]
  | text s => simp [Affinity.store, Value.asText]
  | num n => cases n <;> simp [Affinity.store, Value.asText]

theorem Affinity.exists_text {v : Value} (h : Affinity.text.store v = v) (hnull : v ≠ .null) :
    ∃ s, v = .text s := by
  cases v with
  | null => exact absurd rfl hnull
  | text s => exact ⟨s, rfl⟩
  | num n => cases n <;> simp [Affinity.store, Value.asText] at h

theorem Column.affinityOf_of_forall {columns : List Column} {name : String} {a : Affinity}
    (h : ∀ c ∈ columns, c.affinity = a) (hname : name ∈ columns.map (·.name)) :
    affinityOf columns name = a := by
  obtain ⟨c, hc, rfl⟩ := List.mem_map.mp hname
  obtain ⟨d, hfind⟩ : ∃ d, columns.find? (·.name = c.name) = some d :=
    Option.isSome_iff_exists.mp (List.find?_isSome.mpr ⟨c, hc, by simp⟩)
  simp [affinityOf, hfind, h d (List.mem_of_find?_eq_some hfind)]

namespace Column

theorem mem_declare {columns : List Column} {c d : Column} (h : d ∈ declare columns c) :
    d ∈ columns ∨ d = c := by
  unfold declare at h
  split at h
  · obtain ⟨d', hd', rfl⟩ := List.mem_map.mp h
    split
    · exact .inr rfl
    · exact .inl hd'
  · simpa using h

/-- A column that is declared again keeps its name and its place. -/
theorem map_name_replace (columns : List Column) (c : Column) :
    (columns.map fun d => if d.name = c.name then c else d).map (·.name) =
      columns.map (·.name) := by
  rw [List.map_map]
  apply List.map_congr_left
  intro d _
  by_cases hd : d.name = c.name <;> simp [hd]

theorem names_declare {columns : List Column} {c : Column} {name : String} :
    name ∈ (declare columns c).map (·.name) ↔ name ∈ columns.map (·.name) ∨ name = c.name := by
  unfold declare
  split
  · rename_i hany
    obtain ⟨d, hd, hname⟩ := List.any_eq_true.mp hany
    have hin : c.name ∈ columns.map (·.name) :=
      List.mem_map.mpr ⟨d, hd, of_decide_eq_true hname⟩
    rw [map_name_replace]
    exact ⟨.inl, fun h => h.elim id fun he => he ▸ hin⟩
  · simp [eq_comm]

/-- No name is that of two columns, since of columns of one spelling the last type counts. -/
theorem nodup_declare {columns : List Column} (c : Column) (h : (columns.map (·.name)).Nodup) :
    ((declare columns c).map (·.name)).Nodup := by
  unfold declare
  split
  · rw [map_name_replace]
    exact h
  · next hnew =>
    have hnew : c.name ∉ columns.map (·.name) := by
      intro hin
      obtain ⟨d, hd, hname⟩ := List.mem_map.mp hin
      exact hnew (List.any_eq_true.mpr ⟨d, hd, by simpa using hname⟩)
    simpa using h.concat hnew

theorem nodup_foldl_declare {columns more : List Column} (h : (columns.map (·.name)).Nodup) :
    ((more.foldl declare columns).map (·.name)).Nodup := by
  induction more generalizing columns with
  | nil => exact h
  | cons c more ih => exact ih (nodup_declare c h)

theorem mem_foldl_declare {columns more : List Column} {c : Column}
    (h : c ∈ more.foldl declare columns) : c ∈ columns ∨ c ∈ more := by
  induction more generalizing columns with
  | nil => exact .inl h
  | cons d more ih =>
    cases ih h with
    | inl h =>
      rcases mem_declare h with h | rfl
      · exact .inl h
      · exact .inr (by simp)
    | inr h =>
      exact .inr (by simp [h])

theorem names_foldl_declare {columns more : List Column} {name : String} :
    name ∈ (more.foldl declare columns).map (·.name) ↔
      name ∈ columns.map (·.name) ∨ name ∈ more.map (·.name) := by
  induction more generalizing columns with
  | nil => simp
  | cons d more ih =>
    rw [List.foldl_cons, ih, names_declare, List.map_cons, List.mem_cons, or_assoc]

/-- Of columns of one spelling the last type counts. -/
theorem affinityOf_declare (columns : List Column) (c : Column) (name : String) :
    affinityOf (declare columns c) name =
      if name = c.name then c.affinity else affinityOf columns name := by
  unfold declare affinityOf
  split
  · next hany =>
    have hplace (d : Column) : (if d.name = c.name then c else d).name = name ↔ d.name = name := by
      by_cases hd : d.name = c.name <;> simp [hd]
    cases hfound : columns.find? (·.name = name) with
    | none =>
      have hname : name ≠ c.name := by
        rintro rfl
        obtain ⟨d, hd, hsame⟩ := List.any_eq_true.mp hany
        exact List.find?_eq_none.mp hfound d hd hsame
      simp only [List.find?_map, Function.comp_def, hplace, hfound]
      simp [hname]
    | some d =>
      have hd : d.name = name := by simpa using List.find?_some hfound
      simp only [List.find?_map, Function.comp_def, hplace, hfound]
      by_cases hname : name = c.name <;> simp [hd, hname]
  · next hnew =>
    by_cases hname : name = c.name
    · subst hname
      have hnone : columns.find? (·.name = c.name) = none := by simpa using hnew
      simp [List.find?_append, hnone]
    · simp [List.find?_append, hname, Ne.symm hname]

theorem affinityOf_foldl_declare {columns more : List Column} {name : String} {a : Affinity}
    (hmore : ∀ c ∈ more, c.name = name → c.affinity = a)
    (h : affinityOf columns name = a ∨ name ∈ more.map (·.name)) :
    affinityOf (more.foldl declare columns) name = a := by
  induction more generalizing columns with
  | nil => simpa using h
  | cons c more ih =>
    refine ih (fun d hd => hmore d (.tail _ hd)) ?_
    rw [affinityOf_declare]
    by_cases hname : name = c.name
    · rw [if_pos hname]
      exact .inl (hmore c List.mem_cons_self hname.symm)
    · rw [if_neg hname]
      exact h.imp_right fun hin => (List.mem_cons.mp hin).resolve_left hname

end Column

theorem World.names_columnsOf {schema : Schema} {reserved keys : List String} {name : String} :
    name ∈ (columnsOf schema reserved keys).map (·.name) ↔ name ∈ reserved ++ keys := by
  simp only [columnsOf, Column.names_foldl_declare, List.map_append, List.map_map,
    Function.comp_def, List.map_id', List.map_nil, List.not_mem_nil, false_or]

theorem World.affinity_columnsOf {schema : Schema} {reserved keys : List String}
    (htext : schema.idAffinity = .text) (c : Column) (hc : c ∈ columnsOf schema reserved keys) :
    c.affinity = .text := by
  cases Column.mem_foldl_declare hc with
  | inl hc =>
    simp at hc
  | inr hc =>
    cases List.mem_append.mp hc with
    | inl hc =>
      obtain ⟨_, _, rfl⟩ := List.mem_map.mp hc
      exact htext
    | inr hc =>
      obtain ⟨_, _, rfl⟩ := List.mem_map.mp hc
      rfl

/-- A key has a column of texts. -/
theorem World.affinityOf_columnsOf {schema : Schema} {reserved keys : List String} {key : String}
    (hkey : key ∈ keys) : Column.affinityOf (columnsOf schema reserved keys) key = .text := by
  rw [columnsOf, List.foldl_append]
  refine Column.affinityOf_foldl_declare (fun c hc _ => ?_) (.inr (by simpa using hkey))
  obtain ⟨_, _, rfl⟩ := List.mem_map.mp hc
  rfl

/-! ## New rows -/

theorem Name.nodup_of_allDistinct {names : List String} (h : allDistinct names = true) :
    (names.map folded).Nodup := by
  have hlength : (names.map folded).length ≤ (names.map folded).eraseDups.length :=
    (of_decide_eq_true h).ge
  have hnodup : (names.map folded).eraseDups.Nodup := Value.nodup_eraseDups _
  -- as long as the list itself, the list without repetitions is the same up to order
  have hperm : (names.map folded).eraseDups.Perm (names.map folded) :=
    (hnodup.subperm fun form hform => List.mem_eraseDups.mp hform).perm_of_length_le hlength
  exact hperm.nodup_iff.mp hnodup

theorem Table.spelling_eq {t : Table} (h : Name.allDistinct t.names = true) {name : String}
    (hname : name ∈ t.names) : t.spelling name = .ok name := by
  have hsome : (t.names.find? (Name.same name)).isSome :=
    List.find?_isSome.mpr ⟨name, hname, by simp [Name.same]⟩
  obtain ⟨found, hfound⟩ := Option.isSome_iff_exists.mp hsome
  have hsame : Name.folded name = Name.folded found := by
    simpa [Name.same] using List.find?_some hfound
  obtain rfl : name = found := List.inj_on_of_nodup_map (Name.nodup_of_allDistinct h) hname
    (List.mem_of_find?_eq_some hfound) hsame
  simp [Table.spelling, Table.spelling?, hfound]

theorem Table.mapM_spelling {t : Table} (h : Name.allDistinct t.names = true) {names : List String}
    (hnames : ∀ name ∈ names, name ∈ t.names) : names.mapM t.spelling = .ok names := by
  induction names with
  | nil => rfl
  | cons name names ih =>
    rw [List.mapM_cons, spelling_eq h (hnames name (by simp)),
      ih fun name' hname' => hnames name' (by simp [hname'])]
    rfl

/-- New rows stand in their table, and nothing else has changed. -/
theorem Program.wp.insertRows {s : Store} {table : String} {t : Table} {columns : List String}
    {rows : List (List Value)} {Q : Unit → Store → Prop} (ht : s.database.find? table = some t)
    (hdistinct : Name.allDistinct t.names = true) (hsome : columns ≠ [])
    (hcolumns : ∀ column ∈ columns, column ∈ t.names)
    (hrows : ∀ cells ∈ rows, columns.length ≤ cells.length)
    (hQ : ∀ db, db.find? table = some (t.append (rows.map fun cells => t.row (columns.zip cells))) →
      Database.SameBut [table] s.database db → Q () { s with database := db }) :
    wp (Program.insertRows table columns rows) Q s := by
  unfold Program.insertRows
  cases rows with
  | nil => exact .pure (hQ s.database (by simpa [Table.append] using ht) (.refl _ _))
  | cons row rows =>
    have hlong : ¬ (columns.isEmpty || (row :: rows).any (·.length < columns.length)) = true := by
      simpa [hsome] using hrows
    simp only [List.isEmpty_cons, Bool.false_eq_true, if_false, if_neg hlong]
    refine .update ?_ (hQ _ (by rw [Database.find?_put, if_pos rfl]) (.put _ _ _))
    simp [Database.table, ht, Table.mapM_spelling hdistinct hcolumns]

/-! ## Loading -/

/-- An edge as the edge table keeps it. -/
def WorldEdge.arc (schema : Schema) (e : WorldEdge) : Arc :=
  ⟨schema.idAffinity.store e.id, schema.idAffinity.store e.child, schema.idAffinity.store e.parent⟩

namespace World

/-- The two annotation tables can be created, each under a name of its own. -/
structure CanLoad (w : World) (schema : Schema) : Prop where
  vertexTable : Name.isGivable schema.vertexTable = true
  edgeTable : Name.isGivable schema.edgeTable = true
  apart : Name.folded schema.vertexTable ≠ Name.folded schema.edgeTable
  vertexColumns : CanHold (columnsOf schema [schema.idColumn]
    (keysOf w.vertexKeys (w.vertices.map (·.annotations))))
  edgeColumns : CanHold (columnsOf schema schema.reserved
    (keysOf w.edgeKeys (w.edges.map (·.annotations))))

/-- Keys that ascend already stay as they are. -/
theorem keysOf_eq {annotations : List (List (String × Value))} {keys : List String}
    (hkeys : (annotations.flatten.map (·.1)).eraseDups = keys)
    (hascend : keys.Pairwise fun a b => decide (a ≤ b) = true) : keysOf [] annotations = keys := by
  rw [keysOf, List.nil_append, hkeys, List.mergeSort_of_pairwise hascend]

/-- A table of new rows under the reserved columns and those of the keys. -/
def filled (schema : Schema) (reserved keys : List String) (rows : List (List Value)) : Table :=
  let empty : Table := ⟨columnsOf schema reserved keys, []⟩
  empty.append (rows.map fun cells => empty.row ((reserved ++ keys).zip cells))

variable {w : World} {schema : Schema} {env : Environment} {s : Store}

/-- The vertex table of a world, with a column for each key. -/
def vertexRows (w : World) (schema : Schema) : Table :=
  let keys := keysOf w.vertexKeys (w.vertices.map (·.annotations))
  filled schema [schema.idColumn] keys
    (w.vertices.map fun v => v.id :: cellsOf keys v.annotations)

/-- The edge table of a world, with a column for each key. -/
def edgeRows (w : World) (schema : Schema) : Table :=
  let keys := keysOf w.edgeKeys (w.edges.map (·.annotations))
  filled schema schema.reserved keys
    (w.edges.map fun e => [e.id, e.child, e.parent] ++ cellsOf keys e.annotations)

/-- Loading succeeds where both tables can be created, and fills them. -/
theorem load_rows (hw : w.CanLoad schema) :
    (w.load schema).wp (fun _ s' =>
      s'.database.find? schema.vertexTable = some (w.vertexRows schema) ∧
      s'.database.find? schema.edgeTable = some (w.edgeRows schema) ∧
      s'.scratchStem = s.scratchStem) s := by
  let vertexKeys := keysOf w.vertexKeys (w.vertices.map (·.annotations))
  let edgeKeys := keysOf w.edgeKeys (w.edges.map (·.annotations))
  let vertices : Table := ⟨columnsOf schema [schema.idColumn] vertexKeys, []⟩
  let edges : Table := ⟨columnsOf schema schema.reserved edgeKeys, []⟩
  have hvertices : (Database.put (s.database.put schema.vertexTable vertices) schema.edgeTable
      edges).find? schema.vertexTable = some vertices := by
    rw [Database.find?_put, if_neg hw.apart, Database.find?_put, if_pos rfl]
  have hedges : (Database.put (s.database.put schema.vertexTable vertices) schema.edgeTable
      edges).find? schema.edgeTable = some edges := by
    rw [Database.find?_put, if_pos rfl]
  unfold load
  -- both tables are there before the first row is added
  refine .bind (.createTable hw.vertexTable hw.vertexColumns ?_)
  refine .bind (.createTable hw.edgeTable hw.edgeColumns ?_)
  refine .bind (.insertRows hvertices hw.vertexColumns.distinct (by simp) ?_ ?_
    fun db₃ hv hs₃ => ?_)
  · exact fun column hcolumn => names_columnsOf.mpr hcolumn
  · simp [cellsOf]
  have hedges₃ : db₃.find? schema.edgeTable = some edges :=
    (hs₃ _ (by simpa using hw.apart.symm)).trans hedges
  refine .insertRows hedges₃ hw.edgeColumns.distinct (by simp [Schema.reserved]) ?_ ?_
    fun db₄ he hs₄ => ?_
  · exact fun column hcolumn => names_columnsOf.mpr hcolumn
  · simp [cellsOf, Schema.reserved]
  · exact ⟨(hs₄ _ (by simpa using hw.apart)).trans hv, he, rfl⟩

/-- The same, whatever keys there are. -/
theorem load_tables (hw : w.CanLoad schema) :
    (w.load schema).wp (fun _ s' => ∃ vertexKeys edgeKeys,
      s'.database.find? schema.vertexTable = some (filled schema [schema.idColumn] vertexKeys
        (w.vertices.map fun v => v.id :: cellsOf vertexKeys v.annotations)) ∧
      s'.database.find? schema.edgeTable = some (filled schema schema.reserved edgeKeys
        (w.edges.map fun e => [e.id, e.child, e.parent] ++ cellsOf edgeKeys e.annotations)) ∧
      s'.scratchStem = s.scratchStem) s :=
  (load_rows hw).mono fun _ _ h => ⟨_, _, h⟩

section Filled

variable {reserved keys : List String} {rows : List (List Value)} {column : String}

theorem get_filled_of_affinity
    (htext : Column.affinityOf (columnsOf schema reserved keys) column = .text)
    (hcolumn : column ∈ reserved ++ keys) (cells : List Value) :
    ((⟨columnsOf schema reserved keys, []⟩ : Table).row ((reserved ++ keys).zip cells)).get column =
      Affinity.text.store ((((reserved ++ keys).zip cells).lookup column).getD .null) := by
  rw [Table.row, Row.get_ofCells (names_columnsOf.mpr hcolumn), htext]

theorem get_filled (keys : List String) (htext : schema.idAffinity = .text)
    (hcolumn : column ∈ reserved ++ keys) (cells : List Value) :
    ((⟨columnsOf schema reserved keys, []⟩ : Table).row ((reserved ++ keys).zip cells)).get column =
      Affinity.text.store ((((reserved ++ keys).zip cells).lookup column).getD .null) :=
  get_filled_of_affinity
    (Column.affinityOf_of_forall (affinity_columnsOf htext) (names_columnsOf.mpr hcolumn)) hcolumn cells

/-- The reserved columns of new tables keep ids. -/
theorem keepsIds_filled (htext : schema.idAffinity = .text) (hcolumn : column ∈ reserved ++ keys) :
    schema.KeepsIds (filled schema reserved keys rows) column := by
  have hname : column ∈ (columnsOf schema reserved keys).map (·.name) := names_columnsOf.mpr hcolumn
  refine ⟨by simpa [Table.has, Table.names, filled, Table.append] using hname, ?_, ?_⟩
  · rw [htext]
    exact Column.affinityOf_of_forall (affinity_columnsOf htext) hname
  · intro v hv
    simp only [filled, Table.values, Table.append, List.nil_append, List.map_map,
      List.mem_map] at hv
    obtain ⟨cells, _, rfl⟩ := hv
    rw [htext, Function.comp_apply, get_filled keys htext hcolumn, Affinity.store_store_text]

theorem ids_filled (htext : schema.idAffinity = .text) :
    (filled schema (schema.idColumn :: reserved) keys rows).values schema.idColumn =
      rows.map fun cells => Affinity.text.store (cells.headD .null) := by
  simp only [filled, Table.values, Table.append, List.nil_append, List.map_map]
  apply List.map_congr_left
  intro cells _
  rw [Function.comp_apply, get_filled keys htext (by simp)]
  cases cells <;> simp

end Filled

/-- The rows of the edge table are the edges of the world. -/
theorem arcs_filled {keys : List String} (htext : schema.idAffinity = .text)
    (hcolumns : schema.reserved.Nodup) :
    (filled schema schema.reserved keys
      (w.edges.map fun e => [e.id, e.child, e.parent] ++ cellsOf keys e.annotations)).rows.map
        schema.arcOf = w.edges.map (WorldEdge.arc schema) := by
  have hcell (column : String) (hcolumn : column ∈ schema.reserved) (cells : List Value) :=
    get_filled keys htext (List.mem_append_left keys hcolumn) cells
  -- of a name given twice the first cell counts, so the names must be distinct
  obtain ⟨⟨hchild, hparent⟩, hends⟩ : (schema.idColumn ≠ schema.childColumn ∧
      schema.idColumn ≠ schema.parentColumn) ∧ schema.childColumn ≠ schema.parentColumn := by
    simpa [Schema.reserved] using hcolumns
  simp only [filled, Table.append, List.nil_append, List.map_map]
  apply List.map_congr_left
  intro e _
  simp only [Function.comp_apply, Schema.arcOf]
  rw [hcell _ (by simp), hcell _ (by simp), hcell _ (by simp)]
  simp [WorldEdge.arc, Schema.reserved, List.lookup_cons, htext, beq_false_of_ne hchild.symm,
    beq_false_of_ne hparent.symm, beq_false_of_ne hends.symm]

/-- The base graph has the vertices and edges of the world and no others, and its edge table is as
searches need it. -/
structure IsBase (w : World) (env : Environment) (db : Database) : Prop where
  hasEdgeTable : env.HasEdgeTable db
  vertices : env.Holds db .base .vertex (w.vertices.map fun v => env.schema.idAffinity.store v.id)
  edges : env.Holds db .base .edge (w.edges.map fun e => env.schema.idAffinity.store e.id)
  hasEdge : ∀ a, env.HasEdge db .base a ↔ ∃ e ∈ w.edges, e.arc env.schema = a

/-- A world in which every edge has an id is the base graph once it is loaded. The ends of edges may
be null, and ids may occur again. -/
theorem wp_load (hw : w.CanLoad env.schema) (htext : env.schema.idAffinity = .text)
    (hcolumns : env.schema.reserved.Nodup) (hids : ∀ e ∈ w.edges, e.id ≠ .null) :
    (w.load env.schema).wp
      (fun _ s' => w.IsBase env s'.database ∧ s'.scratchStem = s.scratchStem) s := by
  refine (load_tables hw).mono fun _ s' h => ?_
  obtain ⟨_, keys, hv, he, hstem⟩ := h
  have hvertices : env.Holds s'.database .base .vertex
      (w.vertices.map fun v => env.schema.idAffinity.store v.id) := by
    refine ⟨_, rfl, _, hv, keepsIds_filled htext (by simp), ?_⟩
    rw [ids_filled htext, List.map_map, htext]
    rfl
  have hedges : env.Holds s'.database .base .edge
      (w.edges.map fun e => env.schema.idAffinity.store e.id) := by
    refine ⟨_, rfl, _, he, keepsIds_filled htext (by simp [Schema.reserved]), ?_⟩
    rw [Schema.reserved, ids_filled htext, List.map_map, htext]
    rfl
  refine ⟨⟨⟨_, he, fun column hcolumn => ?_, ?_⟩, hvertices, hedges, fun a => ?_⟩, hstem⟩
  · exact keepsIds_filled htext (List.mem_append_left keys hcolumn)
  · rw [Schema.reserved, ids_filled htext, List.map_map]
    intro hnull
    obtain ⟨e, hin, hid⟩ := List.mem_map.mp hnull
    exact hids e hin (Affinity.store_text_eq_null.mp hid)
  · rw [Environment.hasEdge_iff he hedges, ← List.mem_map (f := env.schema.arcOf),
      arcs_filled htext hcolumns]
    constructor
    · exact fun ha => List.mem_map.mp ha.2
    · intro ha
      obtain ⟨e, hin, rfl⟩ := ha
      exact ⟨List.mem_map.mpr ⟨e, hin, rfl⟩, List.mem_map_of_mem hin⟩

/-- Where other tables are written the base graph stays. -/
theorem IsBase.of_same {db db' : Database} {names : List String} (h : w.IsBase env db)
    (hs : Database.SameBut names db db')
    (ho : ∀ e, ∀ name ∈ names, Name.folded (env.schema.annotationTable e) ≠ Name.folded name) :
    w.IsBase env db' := by
  have hv := h.vertices.of_same hs fun tables hr => Except.ok.inj hr ▸ ho .vertex
  have he := h.edges.of_same hs fun tables hr => Except.ok.inj hr ▸ ho .edge
  have hfind := hs env.schema.edgeTable (ho .edge)
  refine ⟨?_, hv, he, fun a => ?_⟩
  · obtain ⟨t, ht, hkeeps⟩ := h.hasEdgeTable
    exact ⟨t, hfind.trans ht, hkeeps⟩
  · obtain ⟨t, ht, _⟩ := h.hasEdgeTable
    rw [← h.hasEdge a, Environment.hasEdge_iff ht h.edges,
      Environment.hasEdge_iff (hfind.trans ht) he]

end World
end Provenance
