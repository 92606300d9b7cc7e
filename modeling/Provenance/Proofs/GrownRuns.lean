-- SUMMARY: Instructions that read annotations which have grown by a key.
import Provenance.Proofs.GrownReads

/-!
# Instructions that read annotations that have grown

The instructions that name annotation keys, where these are other keys than the new one, or where the
key makes no difference: edges of a graph are grouped by it in vain, and no element of a named graph has
it.
-/
namespace Provenance

open Program

namespace Environment

variable {env : Environment} {e e' : Element} {key : String} {columns columns' : List Column}
  {R : Database → Database → Prop} {o : Origin} {phase : Phase} {target g k : GraphRef}
  {db db' : Database} {table? : Option String}

namespace GetsKey

theorem names_ne_nil (h : env.GetsKey e key columns columns') : columns ≠ [] := by
  rintro rfl
  exact absurd (h.own e rfl _ (env.schema.idColumn_mem_ownColumns e)) (by simp)

/-- A key that stands for other columns stands for the same. -/
theorem contains_eq (h : env.GetsKey e key columns columns') {name : String} (hname : name ≠ key) :
    (columns'.map (·.name)).contains name = (columns.map (·.name)).contains name := by
  rw [Bool.eq_iff_iff, List.contains_iff_mem, List.contains_iff_mem, h.added.mem_iff hname]

/-- Without the key, the same fields have columns. -/
theorem filter_contains_eq (h : env.GetsKey e key columns columns') (fields : List String) :
    fields.filter (columns.map (·.name)).contains =
      (fields.filter (columns'.map (·.name)).contains).filter (· ≠ key) := by
  rw [List.filter_filter]
  refine List.filter_congr fun name _ => ?_
  by_cases hname : name = key
  · subst hname
    simpa using h.added.fresh
  · rw [h.contains_eq hname]
    simp [hname]

/-- Edges are grouped by their ends and by the fields that have columns. -/
theorem endpointColumns_append_eq (h : env.GetsKey e key columns columns')
    (hone : env.schema.OneTable e .edge) (fields : List String) :
    env.endpointColumns .both ++ fields.filter (columns.map (·.name)).contains =
      (env.endpointColumns .both ++ fields.filter (columns'.map (·.name)).contains).filter
        (· ≠ key) := by
  have hchild := h.own_ne hone env.schema.childColumn_mem_reserved
  have hparent := h.own_ne hone env.schema.parentColumn_mem_reserved
  rw [List.filter_append, ← h.filter_contains_eq]
  simp [endpointColumns, hchild, hparent]

end GetsKey

theorem forall_endpointColumns_append_mem {names : List String}
    (hreserved : ∀ column ∈ env.schema.reserved, column ∈ names) (fields : List String) :
    ∀ column ∈ env.endpointColumns .both ++ fields.filter names.contains, column ∈ names := by
  intro column hcolumn
  rcases List.mem_append.mp hcolumn with hcolumn | hcolumn
  · exact hreserved column (env.endpointColumns_subset_reserved hcolumn)
  · simpa using (List.mem_filter.mp hcolumn).2

section Tables

variable {t t' : Table} {r r' : Row}

theorem takeColumns_eq_of_grown (hadded : Column.Added key columns columns')
    (hgrown : t.Grown key columns columns' t') {names : List String} (hnames : key ∉ names)
    (taken : List String) : takeColumns t taken names = takeColumns t' taken names := by
  have hempty : t'.rows.isEmpty = t.rows.isEmpty := by
    rw [Bool.eq_iff_iff, List.isEmpty_iff_length_eq_zero, List.isEmpty_iff_length_eq_zero,
      hgrown.rows.length_eq]
  induction names generalizing taken with
  | nil => rfl
  | cons name rest ih =>
    obtain ⟨hname, hrest⟩ := not_or.mp (mt List.mem_cons.mpr hnames)
    rw [takeColumns, takeColumns, hempty, hgrown.has_eq hadded (Ne.symm hname), ih hrest]

/-- Nulls are not annotations. -/
theorem annotationsOf_eq_of_grown (hadded : Column.Added key columns columns')
    (hgrown : t.Grown key columns columns' t') (hr : Row.Grown key r r') (except : List String) :
    t.annotationsOf except r = t'.annotationsOf except r' := by
  unfold Table.annotationsOf
  rw [List.filterMap_filter, List.filterMap_filter, Table.names, Table.names, hgrown.columns,
    hgrown.columns']
  refine congrArg Annotations.ofList (hadded.filterMap_eq (fun name hname => ?_) ?_)
  · rw [hr.others name hname]
  · rw [hr.blank]
    exact ite_self _

end Tables

section Reads

variable (h : env.GetsKey e key columns columns')
  (hgrown : ∀ {db db'}, R db db' → env.Grown e key columns columns' db db')

include h hgrown

section Element

variable (hone : env.schema.OneTable e e')

include hone

theorem cellsInScope_eq_of_grown (hR : R db db') {name : String} (hname : name ≠ key)
    (table? : Option String) :
    env.cellsInScope db e' table? name = env.cellsInScope db' e' table? name := by
  apply Except.Alike.eq
  have hnames := h.added.forall_mem_iff (show key ∉ [name] by simpa using hname.symm)
  refine .bind ((hgrown hR).rowsInScope_alike h hone hnames table?) fun _ _ _ _ hrows => .ok ?_
  exact Row.Grown.get_eq hrows hname

theorem idsMatching_eq_of_grown [RegexLibrary]
    (hR : R db db') {p : Predicate} {names names' : List String}
    (hnames : Column.Names key names names')
    (hdepth : (Sql.depthLimit < if table?.isSome then Sql.restrictedDepth (Sql.anyDepth env.schema names)
        else Sql.anyDepth env.schema names) ↔
      Sql.depthLimit < if table?.isSome then Sql.restrictedDepth (Sql.anyDepth env.schema names')
        else Sql.anyDepth env.schema names') :
    env.idsMatching db e' table? p names = env.idsMatching db' e' table? p names' := by
  apply Except.Alike.eq
  have hid := h.added.forall_mem_iff
    (show key ∉ [env.schema.idColumn] by simpa using h.idColumn_ne.symm)
  refine .guard hdepth fun _ => .bind ((hgrown hR).tableWith_alike hone hid)
    fun t t' _ _ hgrown' => ?_
  rw [hnames.isEmpty_eq]
  have hrest {rows rows' : List Row} (hrows : List.Forall₂ (Row.Grown key) rows rows') :
      Except.Alike (· = ·)
        (do
          let kept ← env.restrict db { t with rows } table?
          return kept.map (·.get env.schema.idColumn))
        (do
          let kept ← env.restrict db' { t' with rows := rows' } table?
          return kept.map (·.get env.schema.idColumn)) :=
    .bind ((hgrown hR).restrict_alike h (hgrown'.withRows hrows) table?) fun _ _ _ _ hrows =>
      .ok (Row.Grown.get_eq hrows h.idColumn_ne)
  split
  · exact hrest hgrown'.rows
  · exact .bind (p.filterRows_alike h.added hgrown' hnames) fun _ _ _ _ hrows => hrest hrows

/-! ## Programs -/

omit h in
theorem annotationColumns_alike_of_grown :
    Alike R o phase
      (fun names names' => names = columns.map (·.name) ∧ names' = columns'.map (·.name))
      (env.annotationColumns e') (env.annotationColumns e') := by
  refine .query fun db db' hR => .bind ((hgrown hR).table_alike hone) fun t t' _ _ hgrown' => .ok ?_
  exact ⟨by rw [Table.names, hgrown'.columns], by rw [Table.names, hgrown'.columns']⟩

theorem select_alike_of_grown [RegexLibrary] (htarget : env.TakesGraph R target) {p : Predicate}
    (hp : p.isWildcard = true ∨ p.key ≠ key)
    (hfits : Sql.selectDepth env.schema g (p.columnsIn (columns.map (·.name))) ≤ Sql.depthLimit →
      Sql.selectDepth env.schema g (p.columnsIn (columns'.map (·.name))) ≤ Sql.depthLimit) :
    Alike R o phase (fun _ _ => True) (env.select e' target g (some p))
      (env.select e' target g (some p)) := by
  have hcolumns := Column.Names.columnsIn h.added h.names_ne_nil hp
  unfold select
  refine .bind (.sameLookup _) fun tables _ hq => ?_
  obtain ⟨rfl, htables⟩ := hq
  refine .bind (.sameLookup _) fun _ _ _ => .bind (.sameLookup _) fun table? _ hq => ?_
  obtain ⟨rfl, htable⟩ := hq
  refine .bind (annotationColumns_alike_of_grown hgrown hone) fun names names' hnames => ?_
  obtain ⟨rfl, rfl⟩ := hnames
  dsimp only
  rw [hcolumns.isEmpty_eq]
  refine .ite (fun _ => .pure trivial) fun _ => ?_
  refine .insertIds (htarget tables htables e') fun hR => ?_
  rw [idsMatching_eq_of_grown h hgrown hone hR hcolumns]
  rw [Sql.selectDepth_eq htable, Sql.selectDepth_eq htable, ← not_le, ← not_le]
  exact not_congr ⟨hfits, (Sql.selectDepth_mono env.schema g hcolumns.sublist).trans⟩

theorem presentValues_alike_of_grown {key' : String} (hkey : key' ≠ key) :
    Alike R o phase (· = ·) (env.presentValues g e' key') (env.presentValues g e' key') := by
  unfold presentValues
  refine .bind (annotationColumns_alike_of_grown hgrown hone) fun names names' hnames => ?_
  obtain ⟨rfl, rfl⟩ := hnames
  rw [h.contains_eq hkey]
  refine .ite (fun _ => .pure rfl) fun _ => .bind (.sameLookup _) fun table? _ hq => ?_
  obtain ⟨rfl, _⟩ := hq
  exact .query fun _ _ hR => .of_eq (by rw [cellsInScope_eq_of_grown h hgrown hone hR hkey])

theorem histogram_alike_of_grown {key' : String} (hkey : key' ≠ key) :
    Alike R o phase (· = ·) (env.histogram g e' key') (env.histogram g e' key') := by
  refine Environment.histogram_alike (C := True) ((presentValues_alike_of_grown h hgrown hone
    hkey).mono fun _ _ hvs => ⟨hvs, fun _ => trivial⟩) fun _ => ?_
  refine .bind (.sameLookup _) fun table? _ hq => .query fun _ _ hR => .of_eq ?_
  obtain ⟨rfl, _⟩ := hq
  rw [cellsInScope_eq_of_grown h hgrown hone hR hkey]

/-! ### Exports -/

theorem exported_alike_of_grown :
    Alike R o phase (Table.Grown key columns columns') (env.exported g e') (env.exported g e') := by
  unfold exported
  refine .bind (.sameLookup _) fun table? _ hq => .query fun db db' hR => ?_
  obtain ⟨rfl, _⟩ := hq
  refine .bind ((hgrown hR).table_alike hone) fun t t' _ _ hgrown' => ?_
  refine .bind ((hgrown hR).restrict_alike h hgrown' table?) fun rows rows' _ _ hrows => .ok ?_
  exact hgrown'.withRows hrows

/-! ### Descriptions -/

/-- The new key is looked for and not found. -/
theorem describedKeys_alike_of_grown {f : String → Bool} (hf : f key = true)
    (hfound : ∀ {db db'}, R db db' → ∀ table?, env.restriction? g e' = .ok table? →
      ∃ vs, env.cellsInScope db' e' table? key = .ok vs ∧ ∀ v ∈ vs, v = .null) :
    Alike R o phase (· = ·) (env.describedKeys g e' ((columns.map (·.name)).filter f))
      (env.describedKeys g e' ((columns'.map (·.name)).filter f)) := by
  unfold describedKeys
  refine .bind (.sameLookup _) fun table? _ hq => ?_
  obtain ⟨rfl, htable⟩ := hq
  obtain ⟨before, after, c, hc, hbefore, hafter⟩ := h.added.split
  have hfilter : (columns.map (·.name)).filter f =
      (before.map (·.name)).filter f ++ (after.map (·.name)).filter f := by
    simp [hbefore]
  have hfilter' : (columns'.map (·.name)).filter f =
      (before.map (·.name)).filter f ++ key :: (after.map (·.name)).filter f := by
    rw [hafter, List.map_append, List.filter_append, List.map_cons, hc,
      List.filter_cons_of_pos hf]
  rw [hfilter', hfilter]
  refine .filterM_insert (fun name hname => ?_) fun s s' hs => ?_
  · have hne : name ≠ key := by
      rintro rfl
      rw [← hfilter] at hname
      exact h.added.fresh (List.mem_filter.mp hname).1
    exact .query fun _ _ hR => .of_eq (by rw [cellsInScope_eq_of_grown h hgrown hone hR hne])
  · obtain ⟨vs, hvs, hnull⟩ := hfound hs.database table? htable
    rw [perform_query, hvs]
    have hany : vs.any (· ≠ .null) = false := by
      rw [List.any_eq_false]
      exact fun v hv => by simp [hnull v hv]
    rw [ok_bind, hany]
    rfl

end Element

/-! ### Vertices -/

section Vertices

variable (hone : env.schema.OneTable e .vertex) {keys : List String} (hkeys : key ∉ keys)

include hone

theorem exportVertices_alike_of_grown :
    Alike R o phase (· = ·) (env.exportVertices g) (env.exportVertices g) := by
  unfold exportVertices
  refine .bind (exported_alike_of_grown h hgrown hone) fun t t' hgrown' => ?_
  have hid : key ∉ [env.schema.idColumn] := by simpa using h.idColumn_ne.symm
  rw [takeColumns_eq_of_grown h.added hgrown' hid]
  refine .bind (.sameLookup _) fun _ _ _ => .pure (congrArg distinctVertices ?_)
  refine Row.Grown.map_eq hgrown'.rows fun r r' hr => ?_
  rw [Schema.vertexOf, Schema.vertexOf, hr.others _ h.idColumn_ne,
    annotationsOf_eq_of_grown h.added hgrown' hr]

include hkeys

theorem carriers_alike_of_grown (table : String) :
    Alike R o phase (SameStatement R) (env.carriers table keys) (env.carriers table keys) := by
  have hne {name : String} (hname : name ∈ keys) : name ≠ key := fun heq => hkeys (heq ▸ hname)
  unfold carriers
  refine .guard (.bind (annotationColumns_alike_of_grown hgrown hone) fun names names' hnames => ?_)
  obtain ⟨rfl, rfl⟩ := hnames
  have hall : keys.all (columns'.map (·.name)).contains = keys.all (columns.map (·.name)).contains := by
    rw [Bool.eq_iff_iff, List.all_eq_true, List.all_eq_true]
    exact forall₂_congr fun name hname => by rw [h.contains_eq (hne hname)]
  dsimp only
  rw [hall]
  refine .ite (fun _ => .pure .none) fun _ => .pure (.some fun hR => Except.Alike.eq ?_)
  refine .guard Iff.rfl fun _ => ?_
  refine .bind ((hgrown hR).rowsInScope_alike h hone (h.added.forall_mem_iff hkeys) _)
    fun rows rows' _ _ hrows => .ok (congrArg Value.groups ?_)
  refine Row.Grown.get_eq (Row.Grown.filter hrows fun r r' hr => ?_) h.idColumn_ne
  rw [Bool.eq_iff_iff, List.all_eq_true, List.all_eq_true]
  exact forall₂_congr fun name hname => by rw [hr.others name (hne hname)]

theorem agreeing_eq_of_grown (hR : R db db') (left right : Cells) :
    env.agreeing db left right keys = env.agreeing db' left right keys := by
  have hne {name : String} (hname : name ∈ keys) : name ≠ key := fun heq => hkeys (heq ▸ hname)
  have hkeys' : key ∉ env.schema.idColumn :: keys := by simpa using ⟨h.idColumn_ne.symm, hkeys⟩
  apply Except.Alike.eq
  refine .guard Iff.rfl fun _ => .bind ((hgrown hR).tableWith_alike hone
    (h.added.forall_mem_iff hkeys')) fun t t' _ _ hgrown' => .ok ?_
  have hlefts := hgrown'.rowsWithin h.added h.idColumn_ne left
  have hrights := hgrown'.rowsWithin h.added h.idColumn_ne right
  rw [List.flatMap_def, List.flatMap_def]
  refine congrArg List.flatten (Row.Grown.map_eq hlefts fun l l' hl => ?_)
  refine Row.Grown.map_eq (Row.Grown.filter hrights fun r r' hr => ?_) fun r r' hr => ?_
  · rw [Bool.eq_iff_iff, List.all_eq_true, List.all_eq_true]
    refine forall₂_congr fun name hname => ?_
    rw [agreeOn, agreeOn, hl.comparedCell_eq env.schema (hne hname),
      hr.comparedCell_eq env.schema (hne hname)]
  · rw [hl.others _ h.idColumn_ne, hr.others _ h.idColumn_ne]

end Vertices

/-! ### Edges -/

section Edges

variable (hone : env.schema.OneTable e .edge)

include hone

theorem exportEdges_alike_of_grown :
    Alike R o phase (· = ·) (env.exportEdges g) (env.exportEdges g) := by
  have hown {column : String} (hcolumn : column ∈ env.schema.reserved) : column ≠ key :=
    h.own_ne hone hcolumn
  unfold exportEdges
  refine .bind (exported_alike_of_grown h hgrown hone) fun t t' hgrown' => ?_
  rw [takeColumns_eq_of_grown h.added hgrown' fun hkey => hown hkey rfl]
  refine .bind (.sameLookup _) fun _ _ _ => .pure (congrArg distinctEdges ?_)
  refine Row.Grown.map_eq hgrown'.rows fun r r' hr => ?_
  rw [Schema.edgeOf, Schema.edgeOf, hr.others _ (hown env.schema.idColumn_mem_reserved),
    hr.others _ (hown env.schema.childColumn_mem_reserved),
    hr.others _ (hown env.schema.parentColumn_mem_reserved),
    annotationsOf_eq_of_grown h.added hgrown' hr]

/-- Edges that agree on the fields agree on the key too. -/
theorem collapse_alike_of_grown (hreflects : env.Reflects R (fun _ => False) SameName SameScope)
    (htarget : env.TakesGraph R target) {fields : List String}
    (hfits : 2 + (fields.filter (columns.map (·.name)).contains).length ≤ Sql.columnLimit →
      2 + (fields.filter (columns'.map (·.name)).contains).length ≤ Sql.columnLimit) :
    Alike R o phase (fun _ _ => True) (env.collapse target g fields)
      (env.collapse target g fields) := by
  have hown : ∀ column ∈ env.schema.reserved, column ∈ columns.map (·.name) := h.own .edge hone
  have hown' (column : String) (hcolumn : column ∈ env.schema.reserved) :
      column ∈ columns'.map (·.name) :=
    (h.added.mem_iff (h.own_ne hone hcolumn)).mpr (hown column hcolumn)
  unfold collapse
  refine .bind (.sameLookup _) fun tables _ hq => ?_
  obtain ⟨rfl, htables⟩ := hq
  refine .bind (annotationColumns_alike_of_grown hgrown hone) fun names names' hnames => ?_
  obtain ⟨rfl, rfl⟩ := hnames
  refine .bind (.sameLookup _) fun sources _ hq => ?_
  obtain ⟨rfl, _⟩ := hq
  refine .bind (.insertIds (htarget tables htables .vertex) fun hR => ?_) fun _ _ _ => ?_
  · exact hreflects.groups_eq (e := .vertex) hR rfl
  · refine .insertIds (htarget tables htables .edge) fun hR => Except.Alike.eq (.guard ?_ fun _ => ?_)
    · have hle : (fields.filter (columns.map (·.name)).contains).length ≤
          (fields.filter (columns'.map (·.name)).contains).length :=
        h.filter_contains_eq fields ▸ List.length_filter_le _ _
      have hlength (rest : List String) :
          (env.endpointColumns .both ++ rest).length = 2 + rest.length := by
        rw [List.length_append, endpointColumns]
        rfl
      rw [hlength, hlength, ← not_le, ← not_le]
      exact not_congr ⟨hfits, fun hfits' => (Nat.add_le_add_left hle 2).trans hfits'⟩
    · have hnames := iff_of_true (forall_endpointColumns_append_mem hown fields)
        (forall_endpointColumns_append_mem hown' fields)
      refine .bind ((hgrown hR).rowsInScope_alike h hone hnames (some sources.edges))
        fun rows rows' _ _ hrows => .ok ?_
      rw [h.endpointColumns_append_eq hone]
      exact env.leastOfGroups_eq h.idColumn_ne hrows _

end Edges

/-! ### Any elements

The other annotation table is the same in both runs, so that there any key will do.
-/

theorem select_alike_of_getsKey [RegexLibrary] (htarget : env.TakesGraph R target) {p : Predicate}
    (hp : env.schema.OneTable e e' → p.isWildcard = true ∨ p.key ≠ key)
    (hfits : env.schema.OneTable e e' →
      Sql.selectDepth env.schema g (p.columnsIn (columns.map (·.name))) ≤ Sql.depthLimit →
        Sql.selectDepth env.schema g (p.columnsIn (columns'.map (·.name))) ≤ Sql.depthLimit) :
    Alike R o phase (fun _ _ => True) (env.select e' target g (some p))
      (env.select e' target g (some p)) := by
  by_cases hone : env.schema.OneTable e e'
  · exact select_alike_of_grown h hgrown hone htarget (hp hone) (hfits hone)
  · exact (sameAnnotations_of_grown h hgrown hone).select_alike htarget (env.counterparts_refl g)
      (.inl fun _ _ hS => by rw [hS])

theorem presentValues_alike_of_getsKey {key' : String}
    (hkey : ¬ (env.schema.OneTable e e' ∧ key' = key)) :
    Alike R o phase (· = ·) (env.presentValues g e' key') (env.presentValues g e' key') := by
  by_cases hone : env.schema.OneTable e e'
  · exact presentValues_alike_of_grown h hgrown hone fun heq => hkey ⟨hone, heq⟩
  · exact (sameAnnotations_of_grown h hgrown hone).presentValues_alike (env.counterparts_refl g) key'

theorem histogram_alike_of_getsKey {key' : String}
    (hkey : ¬ (env.schema.OneTable e e' ∧ key' = key)) :
    Alike R o phase (· = ·) (env.histogram g e' key') (env.histogram g e' key') := by
  by_cases hone : env.schema.OneTable e e'
  · exact histogram_alike_of_grown h hgrown hone fun heq => hkey ⟨hone, heq⟩
  · exact (sameAnnotations_of_grown h hgrown hone).histogram_alike (env.counterparts_refl g) key'

/-- In the columns that there are, the same keys are found. -/
theorem describedKeys_alike_of_getsKey {f : String → Bool}
    (hf : env.schema.OneTable e e' → f key = true)
    (hfound : env.schema.OneTable e e' → ∀ {db db'}, R db db' →
      ∀ table?, env.restriction? g e' = .ok table? →
        ∃ vs, env.cellsInScope db' e' table? key = .ok vs ∧ ∀ v ∈ vs, v = .null) :
    Alike R o phase
      (fun names names' => ∀ {phase : Phase}, Alike R o phase (· = ·)
        (env.describedKeys g e' (names.filter f)) (env.describedKeys g e' (names'.filter f)))
      (env.annotationColumns e') (env.annotationColumns e') := by
  by_cases hone : env.schema.OneTable e e'
  · refine (annotationColumns_alike_of_grown hgrown hone).mono fun names names' hnames => ?_
    obtain ⟨rfl, rfl⟩ := hnames
    exact describedKeys_alike_of_grown h hgrown hone (hf hone) (hfound hone)
  · have hsame := sameAnnotations_of_grown h hgrown hone
    refine hsame.annotationColumns_alike.mono fun names names' hnames => ?_
    obtain ⟨rfl, _⟩ := hnames
    exact hsame.describedKeys_alike (env.counterparts_refl g) _

theorem exportVertices_alike_of_getsKey :
    Alike R o phase (· = ·) (env.exportVertices g) (env.exportVertices g) := by
  by_cases hone : env.schema.OneTable e .vertex
  · exact exportVertices_alike_of_grown h hgrown hone
  · exact (sameAnnotations_of_grown h hgrown hone).exportVertices_alike (env.counterparts_refl g)

theorem exportEdges_alike_of_getsKey :
    Alike R o phase (· = ·) (env.exportEdges g) (env.exportEdges g) := by
  by_cases hone : env.schema.OneTable e .edge
  · exact exportEdges_alike_of_grown h hgrown hone
  · exact (sameAnnotations_of_grown h hgrown hone).exportEdges_alike (env.counterparts_refl g)

theorem carriers_alike_of_getsKey {keys : List String}
    (hkeys : ¬ (env.schema.OneTable e .vertex ∧ key ∈ keys)) (table : String) :
    Alike R o phase (SameStatement R) (env.carriers table keys) (env.carriers table keys) := by
  by_cases hone : env.schema.OneTable e .vertex
  · exact carriers_alike_of_grown h hgrown hone (fun hkey => hkeys ⟨hone, hkey⟩) table
  · exact (sameAnnotations_of_grown h hgrown hone).carriers_alike rfl keys

theorem agreeing_eq_of_getsKey {keys : List String}
    (hkeys : ¬ (env.schema.OneTable e .vertex ∧ key ∈ keys)) (hR : R db db') (left right : Cells) :
    env.agreeing db left right keys = env.agreeing db' left right keys := by
  by_cases hone : env.schema.OneTable e .vertex
  · exact agreeing_eq_of_grown h hgrown hone (fun hkey => hkeys ⟨hone, hkey⟩) hR left right
  · exact (sameAnnotations_of_grown h hgrown hone).agreeing_eq hR left right keys

theorem collapse_alike_of_getsKey (hreflects : env.Reflects R (fun _ => False) SameName SameScope)
    (htarget : env.TakesGraph R target) {fields : List String}
    (hfits : env.schema.OneTable e .edge →
      2 + (fields.filter (columns.map (·.name)).contains).length ≤ Sql.columnLimit →
        2 + (fields.filter (columns'.map (·.name)).contains).length ≤ Sql.columnLimit) :
    Alike R o phase (fun _ _ => True) (env.collapse target g fields)
      (env.collapse target g fields) := by
  by_cases hone : env.schema.OneTable e .edge
  · exact collapse_alike_of_grown h hgrown hone hreflects htarget (hfits hone)
  · exact (sameAnnotations_of_grown h hgrown hone).collapse_alike hreflects htarget
      (env.counterparts_refl g) fields

end Reads

end Environment
end Provenance
