-- SUMMARY: Collapsed edges have, for each edge of their source, one with the same ends.
import Provenance.Proofs.SameEnds
import Provenance.Proofs.Runs

/-!
# Collapsed edges

Collapsing keeps, of each group of edges that agree in their ends and in some fields, the edge with the
least id. What is kept is among the edges of the source, and for every edge of the source one with the
same ends is kept, null ends among them. So the pairs of ends stay, although edges that share their ends
may go.
-/
namespace Provenance

open Program

namespace Environment

variable {env : Environment} {db : Database} {s : Store} {t : Table} {rows : List Row}
  {columns fields : List String} {g k : GraphRef} {vs es : List Value}

/-! ## Groups -/

/-- The columns by which the edges of a table fall into groups. -/
def groupColumns (env : Environment) (t : Table) (fields : List String) : List String :=
  env.endpointColumns .both ++ fields.filter t.names.contains

/-- What is kept is the id of a row. -/
theorem exists_row_of_mem_leastOfGroups {v : Value} (hv : v ∈ env.leastOfGroups rows columns) :
    ∃ r ∈ rows, r.get env.schema.idColumn = v := by
  obtain ⟨k, hk, rfl⟩ := List.mem_map.mp hv
  obtain ⟨r, hr, _, hid⟩ := exists_least env hk
  exact ⟨r, hr, hid⟩

/-- For every row one is kept that agrees with it in all columns. -/
theorem exists_kept_of_mem (env : Environment) (columns : List String) {r : Row} (hr : r ∈ rows) :
    ∃ r' ∈ rows, r'.get env.schema.idColumn ∈ env.leastOfGroups rows columns ∧
      ∀ column ∈ columns, (r'.get column).canonical = (r.get column).canonical := by
  let key (r : Row) : List Value := columns.map fun column => (r.get column).canonical
  have hk : key r ∈ (rows.map key).eraseDups.mergeSort Value.listLe := by
    rw [List.mem_mergeSort, List.mem_eraseDups]
    exact List.mem_map_of_mem hr
  obtain ⟨r', hr', hkey, hid⟩ := exists_least env hk
  exact ⟨r', hr', hid ▸ List.mem_map_of_mem hk, List.map_inj_left.mp hkey⟩

/-! ## The pairs of ends -/

/-- The ids that are left of a graph's edges. -/
def keptIds (env : Environment) (t : Table) (es : List Value) (fields : List String) : List Value :=
  env.leastOfGroups (t.rows.filter fun r => (r.get env.schema.idColumn).memberOf es)
    (env.groupColumns t fields)

theorem keptIds_nil (env : Environment) (t : Table) (fields : List String) :
    env.keptIds t [] fields = [] := by
  have hnone : t.rows.filter (fun r => (r.get env.schema.idColumn).memberOf []) = [] :=
    List.filter_eq_nil_iff.mpr fun r _ => by simp [Value.memberOf_iff]
  simp [keptIds, hnone, leastOfGroups]

theorem keptIds_subset (ht : env.IsEdgeTable t) : env.keptIds t es fields ⊆ es := by
  intro v hv
  obtain ⟨r, hr, rfl⟩ := exists_row_of_mem_leastOfGroups hv
  exact (ht.mem_filter.mp hr).2

/-- A graph that holds what is left of another's edges has the same pairs of ends. -/
theorem exists_hasEdge_kept_iff (ht : db.find? env.schema.edgeTable = some t)
    (htable : env.IsEdgeTable t) (hg : env.Holds db g .edge es)
    (hk : env.Holds db k .edge (env.keptIds t es fields))
    (hordered : Value.Ordered (Arc.IsEnd (env.HasEdge db g))) (child parent : Value) :
    (∃ a, env.HasEdge db k a ∧ a.child = child ∧ a.parent = parent) ↔
      ∃ a, env.HasEdge db g a ∧ a.child = child ∧ a.parent = parent := by
  constructor
  · rintro ⟨a, ha, hends⟩
    obtain ⟨hid, hrow⟩ := (hasEdge_iff ht hk).mp ha
    exact ⟨a, (hasEdge_iff ht hg).mpr ⟨keptIds_subset htable hid, hrow⟩, hends⟩
  · rintro ⟨a, ha, rfl, rfl⟩
    obtain ⟨hid, r, hr, rfl⟩ := (hasEdge_iff ht hg).mp ha
    obtain ⟨r', hr', hkept, hlike⟩ := exists_kept_of_mem env (env.groupColumns t fields)
      (htable.mem_filter.mpr ⟨hr, hid⟩)
    obtain ⟨hr', hid'⟩ := htable.mem_filter.mp hr'
    have ha' : env.HasEdge db g (env.schema.arcOf r') :=
      (hasEdge_iff ht hg).mpr ⟨hid', r', hr', rfl⟩
    -- equal ends are the same values, since the order tells them apart
    refine ⟨env.schema.arcOf r', (hasEdge_iff ht hk).mpr ⟨hkept, r', hr', rfl⟩, ?_, ?_⟩
    · exact hordered.eq_of_canonical_eq ⟨_, ha', .inl rfl⟩ ⟨_, ha, .inl rfl⟩
        (hlike _ (by simp [groupColumns, endpointColumns]))
    · exact hordered.eq_of_canonical_eq ⟨_, ha', .inr rfl⟩ ⟨_, ha, .inr rfl⟩
        (hlike _ (by simp [groupColumns, endpointColumns]))

/-- Searches see parallel edges in the two graphs. -/
theorem parallel_of_kept (ht : db.find? env.schema.edgeTable = some t) (htable : env.IsEdgeTable t)
    (hg : env.Holds db g .edge es) (hk : env.Holds db k .edge (env.keptIds t es fields))
    (hordered : Value.Ordered (Arc.IsEnd (env.HasEdge db g))) {edges? edges?' : Option String}
    (hr : env.restriction? k .edge = .ok edges?) (hr' : env.restriction? g .edge = .ok edges?') :
    ∃ arcs arcs', env.arcs db edges? = .ok arcs ∧ env.arcs db edges?' = .ok arcs' ∧
      Arc.Parallel arcs arcs' := by
  obtain ⟨arcs, harcs, hmem⟩ := exists_arcs ⟨t, ht, htable⟩ hk hr
  obtain ⟨arcs', harcs', hmem'⟩ := exists_arcs ⟨t, ht, htable⟩ hg hr'
  refine ⟨arcs, arcs', harcs, harcs', fun child parent => ?_, hordered.mono fun v hv => ?_⟩
  · simp only [hmem, hmem']
    exact exists_hasEdge_kept_iff ht htable hg hk hordered child parent
  · obtain ⟨a, ha, hend⟩ := hv
    obtain ⟨hid, hrow⟩ := (hasEdge_iff ht hk).mp ((hmem a).mp ha)
    exact ⟨a, (hasEdge_iff ht hg).mpr ⟨keptIds_subset htable hid, hrow⟩, hend⟩

/-! ## The instruction -/

section Instruction

variable {name : String} {tables : TablePair} (ht : s.database.find? env.schema.edgeTable = some t)
  (htable : env.IsEdgeTable t) (hvertices : env.Holds s.database g .vertex vs)
  (hedges : env.Holds s.database g .edge es) (hfresh : env.Fresh s.database name tables)

include ht htable hvertices hedges hfresh

/-- Where the columns are not too many, a fresh target gets the vertices and what is left of the
edges. -/
theorem wp_collapse (hfits : (env.groupColumns t fields).length ≤ Sql.columnLimit) :
    (env.collapse (.named name) g fields).wp
      (fun _ s' =>
        env.schema.Lists s'.database tables.vertices (Value.groups vs) ∧
        env.schema.Lists s'.database tables.edges (env.keptIds t es fields) ∧
        Database.SameBut [tables.vertices, tables.edges] s.database s'.database) s := by
  obtain ⟨sources, hr, hlists⟩ := id hvertices
  have hnames : s.database.columnNames env.schema.edgeTable = .ok t.names := by
    simp [Database.columnNames, Database.table, ht]
  have hids : env.schema.ids s.database sources.vertices = .ok ⟨env.schema.idAffinity, vs⟩ :=
    hlists.ids
  have hgroups : env.schema.idAffinity.Keeps (Value.groups vs) :=
    fun v hv => hlists.keeps v (Value.mem_groups.mp hv)
  obtain ⟨db₁, hinsert, hv₁, hs₁⟩ := (hfresh.lists .vertex).insertColumn hgroups
  -- the edges of the source stay as the vertices are written
  obtain ⟨sources', hr', hheld₁⟩ := hfresh.holds_edges_of_same hs₁ hedges
  obtain rfl : sources = sources' := by simpa [hr] using hr'
  have ht₁ : db₁.find? env.schema.edgeTable = some t :=
    (hs₁ _ (by simpa using hfresh.edgeTable_ne .vertex)).trans ht
  have hcolumns : ∀ column ∈ env.groupColumns t fields, t.has column = true := by
    intro column hcolumn
    rcases List.mem_append.mp hcolumn with hcolumn | hcolumn
    · exact (htable.keeps column (env.endpointColumns_subset_reserved hcolumn)).has
    · exact (List.mem_filter.mp hcolumn).2
  have hrows : env.rowsInScope db₁ .edge (some sources.edges) (env.groupColumns t fields) = .ok _ :=
    rowsInScope_of_lists ht₁ htable hheld₁ hcolumns
  have hkept : env.schema.idAffinity.Keeps (env.keptIds t es fields) :=
    fun v hv => hheld₁.keeps v (keptIds_subset htable hv)
  have he₁ := (hfresh.lists .edge).of_same hs₁ (by simpa using hfresh.parts.symm)
  obtain ⟨db₂, hinsert₂, he₂, hs₂⟩ := he₁.insertColumn hkept
  unfold collapse
  refine .bind (.ofExcept hfresh.resolves (.bind (.query hnames (.bind (.ofExcept hr ?_)))))
  refine .bind (.update (Except.bind_eq_ok.mpr ⟨_, ?_, hinsert⟩) ?_)
  · simp [hids]
  refine .update (Except.bind_eq_ok.mpr ⟨_, ?_, hinsert₂⟩) ⟨?_, he₂, ?_⟩
  · exact Except.guard_eq_ok.mpr
      ⟨Nat.not_lt.mpr hfits, Except.bind_eq_ok.mpr ⟨_, hrows, rfl⟩⟩
  · exact hv₁.of_same hs₂ (by simpa using hfresh.parts)
  · exact (hs₁.mono (by simp)).trans (hs₂.mono (by simp))

omit htable hvertices hedges hfresh in
/-- A statement cannot group by too many columns. It is the second one: the vertices are there by then. -/
theorem collapse_refused {target : GraphRef}
    (hlimit : Sql.columnLimit < (env.groupColumns t fields).length) :
    (env.collapse target g fields).ends (fun _ _ => False)
      (fun s' => ∀ tables, env.writable target = .ok tables →
        Database.SameBut [tables.vertices] s.database s'.database) s := by
  have hstart : ∀ tables, env.writable target = .ok tables →
      Database.SameBut [tables.vertices] s.database s.database := fun _ _ => .refl _ _
  unfold collapse
  refine .bind (.ofExcept hstart fun tables htables => .bind (.query hstart fun names hnames => ?_))
  obtain rfl : t.names = names := by
    simpa [Schema.annotationTable, Database.columnNames, Database.table, ht] using hnames
  refine .bind (.ofExcept hstart fun sources _ => .bind (.update hstart fun db hdb => ?_))
  refine .update (fun tables' htables' => ?_) fun db' hdb' => ?_
  · obtain rfl : tables = tables' := by simpa [htables] using htables'
    obtain ⟨_, _, hinsert⟩ := Except.bind_eq_ok.mp hdb
    obtain ⟨_, _, _, rfl⟩ := Database.insertColumn_eq_ok hinsert
    exact .put _ _ _
  · obtain ⟨_, hselect, _⟩ := Except.bind_eq_ok.mp hdb'
    exact (Except.guard_eq_ok.mp hselect).1 hlimit

end Instruction
end Environment
end Provenance
