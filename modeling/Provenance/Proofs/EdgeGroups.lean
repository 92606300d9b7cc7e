-- SUMMARY: Groups of edges by ends and fields, and the least edge that collapsing keeps of each.
import Provenance.Proofs.CollapsedSearches

/-!
# Groups of edges

Edges fall into groups by their ends and by the fields that edges have; a null agrees with a null.
Collapsing keeps the edge with the least id of each group. Where fewer fields are told apart, groups are
unions of finer ones, and the least of a union is the least of what is least in its parts. So it does not
matter whether the edges were collapsed by more fields before.
-/
namespace Provenance

open Program Value

namespace Environment

variable {env : Environment} {s : Store} {t : Table} {g : GraphRef} {name name' : String}
  {tables tables' : TablePair} {fields fields' : List String} {vs es : List Value}
  {r r₁ r₂ r₃ : Row} {id : Value}

/-! ## Groups -/

/-- Two edges have equal ends, and equal values in every field that edges have. -/
structure SameGroup (env : Environment) (t : Table) (fields : List String) (r₁ r₂ : Row) : Prop where
  child : (r₁.get env.schema.childColumn).canonical = (r₂.get env.schema.childColumn).canonical
  parent : (r₁.get env.schema.parentColumn).canonical = (r₂.get env.schema.parentColumn).canonical
  fields : ∀ field ∈ fields, t.has field = true →
    (r₁.get field).canonical = (r₂.get field).canonical

namespace SameGroup

theorem refl (r : Row) : env.SameGroup t fields r r := ⟨rfl, rfl, fun _ _ _ => rfl⟩

theorem symm (h : env.SameGroup t fields r₁ r₂) : env.SameGroup t fields r₂ r₁ :=
  ⟨h.child.symm, h.parent.symm, fun field hf ht => (h.fields field hf ht).symm⟩

theorem trans (h : env.SameGroup t fields r₁ r₂) (h' : env.SameGroup t fields r₂ r₃) :
    env.SameGroup t fields r₁ r₃ :=
  ⟨h.child.trans h'.child, h.parent.trans h'.parent, fun field hf ht =>
    (h.fields field hf ht).trans (h'.fields field hf ht)⟩

/-- Edges that agree in more fields agree in fewer. -/
theorem of_finer (hfiner : ∀ field ∈ fields', t.has field = true → field ∈ fields)
    (h : env.SameGroup t fields r₁ r₂) : env.SameGroup t fields' r₁ r₂ :=
  ⟨h.child, h.parent, fun field hf ht => h.fields field (hfiner field hf ht) ht⟩

end SameGroup

theorem sameGroup_iff : env.SameGroup t fields r₁ r₂ ↔
    ∀ column ∈ env.groupColumns t fields, (r₁.get column).canonical = (r₂.get column).canonical := by
  simp only [groupColumns, endpointColumns, List.mem_append, List.mem_cons, List.not_mem_nil, or_false,
    List.mem_filter]
  constructor
  · rintro h column ((rfl | rfl) | ⟨hfield, hcolumn⟩)
    · exact h.child
    · exact h.parent
    · exact h.fields column hfield hcolumn
  · intro h
    exact ⟨h _ (by simp), h _ (by simp), fun field hf ht => h field (.inr ⟨hf, ht⟩)⟩

/-- The ids among the given ones of the edges that fall into one group with this one. -/
def GroupOf (env : Environment) (t : Table) (es : List Value) (fields : List String) (r : Row)
    (id : Value) : Prop :=
  id ∈ es ∧ ∃ r' ∈ t.rows, r'.get env.schema.idColumn = id ∧ env.SameGroup t fields r r'

theorem GroupOf.self (hr : r ∈ t.rows) (hid : r.get env.schema.idColumn ∈ es) :
    env.GroupOf t es fields r (r.get env.schema.idColumn) :=
  ⟨hid, r, hr, rfl, .refl r⟩

theorem GroupOf.mem_values (h : env.GroupOf t es fields r id) : id ∈ t.values env.schema.idColumn := by
  obtain ⟨_, r', hr', rfl, _⟩ := h
  exact List.mem_map_of_mem hr'

theorem SameGroup.groupOf_eq (h : env.SameGroup t fields r₁ r₂) :
    env.GroupOf t es fields r₁ = env.GroupOf t es fields r₂ := by
  funext id
  refine propext (and_congr_right fun _ => ?_)
  exact exists_congr fun r' => and_congr_right fun _ => and_congr_right fun _ =>
    ⟨h.symm.trans, h.trans⟩

/-- A group by fewer fields has all that a group by more fields has. -/
theorem GroupOf.of_finer (hfiner : ∀ field ∈ fields', t.has field = true → field ∈ fields)
    (hr : env.SameGroup t fields' r₁ r₂) (h : env.GroupOf t es fields r₂ id) :
    env.GroupOf t es fields' r₁ id := by
  obtain ⟨hid, r', hr', heq, hgroup⟩ := h
  exact ⟨hid, r', hr', heq, hr.trans (hgroup.of_finer hfiner)⟩

/-! ## What is kept -/

section Kept

variable (htable : env.IsEdgeTable t) (hordered : Value.Ordered (· ∈ t.values env.schema.idColumn))

include htable hordered

/-- A group that is not empty has a least id. -/
theorem exists_least_of_group (h : env.GroupOf t es fields r id) :
    ∃ least, IsLeast (env.GroupOf t es fields r) least :=
  (hordered.mono fun _ hid => hid.mem_values).exists_isLeast
    (fun _ hid => ⟨fun hnull => htable.ids (hnull ▸ hid.mem_values), hid.1⟩) h

/-- The least id that is taken in a group of rows is the least of the group. -/
theorem isLeast_of_rows (hr : r ∈ t.rows) (hid : r.get env.schema.idColumn ∈ es) :
    let key (r : Row) := (env.groupColumns t fields).map fun column => (r.get column).canonical
    IsLeast (env.GroupOf t es fields r)
      (Value.least (((t.rows.filter fun r => (r.get env.schema.idColumn).memberOf es).filter
        fun r' => key r' = key r).map (·.get env.schema.idColumn))) := by
  intro key
  have hkey (r' : Row) : key r' = key r ↔ env.SameGroup t fields r r' := by
    rw [sameGroup_iff, List.map_inj_left]
    exact forall₂_congr fun _ _ => eq_comm
  have hmem (v : Value) : v ≠ .null ∧ v ∈ ((t.rows.filter fun r =>
      (r.get env.schema.idColumn).memberOf es).filter fun r' => key r' = key r).map
        (·.get env.schema.idColumn) ↔ env.GroupOf t es fields r v := by
    simp only [List.mem_map, List.mem_filter (p := fun r' => decide (key r' = key r)),
      htable.mem_filter, decide_eq_true_eq, hkey]
    constructor
    · rintro ⟨_, r', ⟨⟨hr', hin⟩, hgroup⟩, rfl⟩
      exact ⟨hin, r', hr', rfl, hgroup⟩
    · intro h
      obtain ⟨hin, r', hr', rfl, hgroup⟩ := id h
      exact ⟨fun hnull => htable.ids (hnull ▸ h.mem_values), r', ⟨⟨hr', hin⟩, hgroup⟩, rfl⟩
  have hself := (hmem _).mpr (GroupOf.self hr hid)
  have hleast := Ordered.isLeast_least
    (hordered.mono fun v hv => ((hmem v).mp hv).mem_values) hself.2 hself.1
  simp only [hmem] at hleast
  exact hleast

/-- Collapsing keeps the least id of each group. -/
theorem mem_keptIds_iff : id ∈ env.keptIds t es fields ↔
    ∃ r ∈ t.rows, IsLeast (env.GroupOf t es fields r) id := by
  simp only [keptIds, leastOfGroups, List.mem_map, List.mem_mergeSort, List.mem_eraseDups,
    htable.mem_filter]
  constructor
  · rintro ⟨_, ⟨r, ⟨hr, hid⟩, rfl⟩, rfl⟩
    exact ⟨r, hr, isLeast_of_rows htable hordered hr hid⟩
  · rintro ⟨r, _, hleast⟩
    obtain ⟨hin, r', hr', rfl, hgroup⟩ := hleast.1
    refine ⟨_, ⟨r', ⟨hr', hin⟩, rfl⟩, ?_⟩
    rw [hgroup.groupOf_eq] at hleast
    exact (hordered.mono fun _ hid => hid.mem_values).isLeast_unique
      (isLeast_of_rows htable hordered hr' hin) hleast

/-- Of each group one edge is kept, the one with the least id. No two rows may have one id: an edge with
two rows may fall into two groups. -/
theorem exists_kept_of_group (hunique : (t.values env.schema.idColumn).Nodup) (hr : r ∈ t.rows)
    (hid : r.get env.schema.idColumn ∈ es) :
    ∃ least, IsLeast (env.GroupOf t es fields r) least ∧
      ∀ id, id ∈ env.keptIds t es fields ∧ env.GroupOf t es fields r id ↔ id = least := by
  have hself : env.GroupOf t es fields r (r.get env.schema.idColumn) := .self hr hid
  obtain ⟨least, hleast⟩ := exists_least_of_group htable hordered hself
  refine ⟨least, hleast, fun id => ⟨fun ⟨hkept, hgroup⟩ => ?_, ?_⟩⟩
  · obtain ⟨r₁, _, hleast₁⟩ := (mem_keptIds_iff htable hordered).mp hkept
    -- the row of the id lies in both groups, so they are one
    obtain ⟨_, r₂, hr₂, hid₂, hsame₂⟩ := hgroup
    obtain ⟨_, r₃, hr₃, hid₃, hsame₃⟩ := hleast₁.1
    obtain rfl : r₂ = r₃ := List.inj_on_of_nodup_map hunique hr₂ hr₃ (hid₂.trans hid₃.symm)
    rw [(hsame₃.trans hsame₂.symm).groupOf_eq] at hleast₁
    exact (hordered.mono fun _ hid => hid.mem_values).isLeast_unique hleast₁ hleast
  · rintro rfl
    exact ⟨(mem_keptIds_iff htable hordered).mpr ⟨r, hr, hleast⟩, hleast.1⟩

/-- What is least in a group by fewer fields is least among what was kept by more. -/
theorem isLeast_kept_iff (hfiner : ∀ field ∈ fields', t.has field = true → field ∈ fields) :
    IsLeast (env.GroupOf t (env.keptIds t es fields) fields' r) id ↔
      IsLeast (env.GroupOf t es fields' r) id := by
  have hsub (w : Value) (hw : env.GroupOf t (env.keptIds t es fields) fields' r w) :
      env.GroupOf t es fields' r w := ⟨keptIds_subset htable hw.1, hw.2⟩
  have hof (w : Value) (hw : IsLeast (env.GroupOf t es fields' r) w) :
      IsLeast (env.GroupOf t (env.keptIds t es fields) fields' r) w := by
    refine ⟨⟨(mem_keptIds_iff htable hordered).mpr ?_, hw.1.2⟩, fun x hx => hw.2 x (hsub x hx)⟩
    obtain ⟨hin, r', hr', rfl, hgroup⟩ := hw.1
    exact ⟨r', hr', .self hr' hin, fun x hx => hw.2 x (hx.of_finer hfiner hgroup)⟩
  refine ⟨fun hleast => ?_, hof id⟩
  obtain ⟨least, h⟩ := exists_least_of_group htable hordered (hsub id hleast.1)
  obtain rfl : id = least :=
    (hordered.mono fun _ hid => hid.mem_values).isLeast_unique hleast (hof least h)
  exact h

/-- Edges that were collapsed by more fields before collapse to the same ones. -/
theorem mem_keptIds_keptIds_iff (hfiner : ∀ field ∈ fields', t.has field = true → field ∈ fields) :
    id ∈ env.keptIds t (env.keptIds t es fields) fields' ↔ id ∈ env.keptIds t es fields' := by
  simp only [mem_keptIds_iff htable hordered, isLeast_kept_iff htable hordered hfiner]

/-- It does not matter in which order fields are given, how often, or whether edges have them. -/
theorem mem_keptIds_congr (hsame : ∀ field, t.has field = true → (field ∈ fields' ↔ field ∈ fields)) :
    id ∈ env.keptIds t es fields' ↔ id ∈ env.keptIds t es fields := by
  have hgroup (r : Row) : env.GroupOf t es fields' r = env.GroupOf t es fields r :=
    funext fun w => propext ⟨.of_finer (fun field hf ht => (hsame field ht).mpr hf) (.refl r),
      .of_finer (fun field hf ht => (hsame field ht).mp hf) (.refl r)⟩
  simp only [mem_keptIds_iff htable hordered, hgroup]

end Kept

theorem nodup_keptIds (ht : s.database.find? env.schema.edgeTable = some t)
    (htable : env.IsEdgeTable t) (hedges : env.Holds s.database g .edge es)
    (hunique : (t.values env.schema.idColumn).Nodup) : (env.keptIds t es fields).Nodup := by
  obtain ⟨sources, _, hlists⟩ := hedges
  have hdistinct : env.UniqueEdges s.database := by
    intro t' ht'
    obtain rfl : t = t' := by simpa [ht] using ht'
    exact hunique.filter _
  have hcolumns : ∀ column ∈ ([] : List String), t.has column = true := by simp
  exact nodup_leastOfGroups hdistinct (rowsInScope_of_lists ht htable hlists hcolumns)

/-! ## The instruction -/

section Instruction

variable (ht : s.database.find? env.schema.edgeTable = some t) (htable : env.IsEdgeTable t)
  (hunique : (t.values env.schema.idColumn).Nodup) (hvertices : env.Holds s.database g .vertex vs)
  (hedges : env.Holds s.database g .edge es) (hfresh : env.Fresh s.database name tables)

include ht htable hunique hvertices hedges hfresh

/-- Where the columns are not too many, a fresh target lists each vertex of the source and each edge
that is kept once. -/
theorem issue_collapse [RegexLibrary] [Summation]
    (hfits : (env.groupColumns t fields).length ≤ Sql.columnLimit) :
    let collapse : Instruction := .collapse (.named name) g fields
    env.outcome s collapse = .ok .done ∧
      env.schema.ListsOnce (env.issue s collapse).database tables.vertices (· ∈ vs) ∧
      env.schema.ListsOnce (env.issue s collapse).database tables.edges
        (· ∈ env.keptIds t es fields) ∧
      Database.SameBut [tables.vertices, tables.edges] s.database
        (env.issue s collapse).database := by
  intro collapse
  obtain ⟨hdone, hv, he, hsame⟩ :=
    outcome_of_wp (i := collapse) rfl (wp_collapse ht htable hvertices hedges hfresh hfits)
  exact ⟨hdone, ⟨_, hv, Value.nodup_groups vs, fun _ => Value.mem_groups⟩,
    ⟨_, he, nodup_keptIds ht htable hedges hunique, fun _ => .rfl⟩, hsame⟩

/-- Collapsing succeeds where the columns are not too many to group by. -/
theorem collapse_done_iff [RegexLibrary] [Summation] :
    env.outcome s (.collapse (.named name) g fields) = .ok .done ↔
    (env.groupColumns t fields).length ≤ Sql.columnLimit := by
  constructor
  · intro houtcome
    by_contra hlimit
    exact outcome_of_refused rfl (collapse_refused ht (Nat.lt_of_not_le hlimit)) houtcome
  · exact fun hfits => (issue_collapse ht htable hunique hvertices hedges hfresh hfits).1

/-- Collapsing succeeds where the columns are not too many to group by. Then it keeps of each group of
edges the one with the least id. Collapsing what is kept by fewer fields gives what collapsing by these
alone gives, and fields may be given in any order, repeated, and named although no edge has them. The
order of values has to tell ids apart, as it does texts and integers. -/
theorem collapse_exact [RegexLibrary] [Summation]
    (hordered : Value.Ordered (· ∈ t.values env.schema.idColumn))
    (fields : List String) :
    let collapse : Instruction := .collapse (.named name) g fields
    let after := env.issue s collapse
    (env.outcome s collapse = .ok .done ↔
      (env.groupColumns t fields).length ≤ Sql.columnLimit) ∧
    (env.outcome s collapse = .ok .done →
      (env.schema.ListsOnce after.database tables.vertices (· ∈ vs) ∧
        ∃ kept, kept ⊆ es ∧ env.schema.ListsOnce after.database tables.edges (· ∈ kept) ∧
          ∀ r ∈ t.rows, r.get env.schema.idColumn ∈ es →
            ∃ least, IsLeast (env.GroupOf t es fields r) least ∧
              ∀ id, id ∈ kept ∧ env.GroupOf t es fields r id ↔ id = least) ∧
      (∀ fields' name' tables', env.Fresh s.database name' tables' → tables'.Apart tables →
        (∀ field ∈ fields', t.has field = true → field ∈ fields) →
        (env.groupColumns t fields').length ≤ Sql.columnLimit →
        let again : Instruction := .collapse (.named name') (.named name) fields'
        let alone : Instruction := .collapse (.named name') g fields'
        env.outcome after again = .ok .done ∧ env.outcome s alone = .ok .done ∧
          env.SameContents (env.issue after again).database tables' (env.issue s alone).database
            tables') ∧
      ∀ fields', (∀ field, t.has field = true → (field ∈ fields' ↔ field ∈ fields)) →
        (env.groupColumns t fields').length ≤ Sql.columnLimit →
        let other : Instruction := .collapse (.named name) g fields'
        env.outcome s other = .ok .done ∧
          env.SameContents after.database tables (env.issue s other).database tables) := by
  intro collapse after
  have hdone : env.outcome s collapse = .ok .done ↔
      (env.groupColumns t fields).length ≤ Sql.columnLimit :=
    collapse_done_iff ht htable hunique hvertices hedges hfresh
  refine ⟨hdone, fun houtcome => ?_⟩
  obtain ⟨_, hv, he, hsame⟩ :=
    issue_collapse ht htable hunique hvertices hedges hfresh (hdone.mp houtcome)
  refine ⟨⟨hv, _, keptIds_subset htable, he, fun r hr hid => ?_⟩, ?_, ?_⟩
  · exact exists_kept_of_group htable hordered hunique hr hid
  · intro fields' name' tables' hfresh' hapart hfiner hfits' again alone
    obtain ⟨_, hv₁, he₁, _⟩ := outcome_of_wp (i := collapse) rfl
      (wp_collapse ht htable hvertices hedges hfresh (hdone.mp houtcome))
    have ht' : after.database.find? env.schema.edgeTable = some t :=
      (hfresh.edgeTable_of_same hsame).trans ht
    obtain ⟨hagain, hv₂, he₂, _⟩ := issue_collapse (s := after) ht' htable hunique
      ⟨tables, hfresh.resolves, hv₁⟩ ⟨tables, hfresh.resolves, he₁⟩ (hfresh'.of_same hsame hapart)
      hfits'
    obtain ⟨halone, hv₃, he₃, _⟩ := issue_collapse ht htable hunique hvertices hedges hfresh' hfits'
    refine ⟨hagain, halone, fun e => ?_⟩
    cases e with
    | vertex => exact ⟨_, hv₂.congr fun v => Value.mem_groups, hv₃⟩
    | edge => exact ⟨_, he₂.congr fun id => mem_keptIds_keptIds_iff htable hordered hfiner, he₃⟩
  · intro fields' hmembers hfits' other
    obtain ⟨hother, hv', he', _⟩ := issue_collapse ht htable hunique hvertices hedges hfresh hfits'
    refine ⟨hother, fun e => ?_⟩
    cases e with
    | vertex => exact ⟨_, hv, hv'⟩
    | edge => exact ⟨_, he, he'.congr fun id => mem_keptIds_congr htable hordered hmembers⟩

omit htable hunique hvertices hedges in
/-- Where the columns are too many, no edge is kept. -/
theorem issue_collapse_of_tooMany [RegexLibrary] [Summation]
    (hlimit : Sql.columnLimit < (env.groupColumns t fields).length) :
    let collapse : Instruction := .collapse (.named name) g fields
    env.outcome s collapse ≠ .ok .done ∧
      env.schema.Lists (env.issue s collapse).database tables.edges [] := by
  intro collapse
  have hrefused : (env.collapse (.named name) g fields).ends (fun _ _ => False)
      (fun s' => ∀ tables, env.writable (.named name) = .ok tables →
        Database.SameBut [tables.vertices] s.database s'.database) s := collapse_refused ht hlimit
  have hsame := issue_of_refused (i := collapse) rfl hrefused tables hfresh.resolves
  exact ⟨outcome_of_refused rfl hrefused,
    (hfresh.lists .edge).of_same hsame (by simpa using hfresh.parts.symm)⟩

end Instruction
end Environment

/-! ## Two edges between the same vertices -/

namespace SmallWorld

theorem twoEdges_unique : (twoEdges.values environment.schema.idColumn).Nodup := by decide

theorem twoEdges_ordered : Value.Ordered (· ∈ twoEdges.values environment.schema.idColumn) := by
  have hvalues : twoEdges.values environment.schema.idColumn = [.text "e", .text "f"] := rfl
  rw [hvalues]
  exact Value.ordered_of_texts (by simp)

/-- By their ids all edges are told apart. -/
def collapseById : Instruction := .collapse (.named "dst") .base ["hash"]

def collapseKept : Instruction := .collapse (.named "out") (.named "dst") []

def collapseAll : Instruction := .collapse (.named "out") .base []

/-- What is kept by ids collapses to what the edges themselves collapse to. -/
theorem collapse_exact_doubled :
    environment.outcome doubled collapseById = .ok .done ∧
      environment.outcome (environment.issue doubled collapseById) collapseKept = .ok .done ∧
      environment.SameContents
        (environment.issue (environment.issue doubled collapseById) collapseKept).database (tables "out")
        (environment.issue doubled collapseAll).database (tables "out") := by
  have hfresh : environment.Fresh doubled.database "dst" (tables "dst") := doubled_fresh (by simp)
  obtain ⟨hdone, hkeeps⟩ := Environment.collapse_exact doubled_edgeTable twoEdges_isEdgeTable
    twoEdges_unique doubled_vertices doubled_edges hfresh twoEdges_ordered ["hash"]
  have houtcome := hdone.mpr (by decide)
  obtain ⟨hagain, _, hsame⟩ := (hkeeps houtcome).2.1 [] "out" (tables "out") (doubled_fresh (by simp))
    (by decide) (by simp) (by decide)
  exact ⟨houtcome, hagain, hsame⟩

/-- So many fields that a statement cannot group by all of them. -/
def manyFields : List String := List.replicate 1999 "hash"

theorem length_groupColumns_manyFields :
    (environment.groupColumns twoEdges manyFields).length = 2001 := by
  have hhas : twoEdges.names.contains "hash" = true := by decide
  rw [Environment.groupColumns, manyFields, List.filter_replicate, if_pos hhas, List.length_append,
    List.length_replicate]
  rfl

/-- Then no edge is kept of the two. -/
theorem not_collapse_exact_manyFields :
    environment.outcome doubled (.collapse (.named "dst") .base manyFields) ≠ .ok .done ∧
      environment.schema.Lists
        (environment.issue doubled (.collapse (.named "dst") .base manyFields)).database
        (tables "dst").edges [] :=
  Environment.issue_collapse_of_tooMany doubled_edgeTable (doubled_fresh (by simp))
    (by rw [length_groupColumns_manyFields]; decide)

end SmallWorld
end Provenance
