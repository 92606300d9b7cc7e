-- SUMMARY: Ids that some graph or end of an edge has; instructions write no others.
import Provenance.Proofs.Effects
import Provenance.Proofs.TaggedSearch
import Provenance.Proofs.Retrace
import Provenance.Proofs.GraphContents
import Provenance.Instruction

/-!
# Known ids

An id is known where some graph holds it, the base graph among them; so are the ends of edges, and
whatever of this a scratch table has kept. Instructions write no ids but known ones, since all that
they select, compare and search through comes from there. What is known stays so while tables only
grow.
-/
namespace Provenance

theorem Except.bind_eq_ok {α β : Type} {x : Except Error α} {f : α → Except Error β} {b : β} :
    (x >>= f) = .ok b ↔ ∃ a, x = .ok a ∧ f a = .ok b := by
  cases x with
  | ok a => simp
  | error e => simp [bind, Except.bind]

/-- What a check lets pass. -/
theorem Except.guard_eq_ok {α β : Type} {c : Prop} [Decidable c] {e : Error}
    {f : β → Except Error α} {x : Except Error α} {a : α} :
    (if c then throw e >>= f else x) = .ok a ↔ ¬ c ∧ x = .ok a := by
  by_cases hc : c
  · simp [hc, bind, Except.bind, throw, throwThe, MonadExceptOf.throw]
  · simp [hc]

theorem Affinity.store_null (a : Affinity) : a.store .null = .null := by cases a <;> rfl

namespace Database

variable {db db' : Database} {name : String} {columns : List String} {t : Table}

theorem tableWith_eq_ok (h : db.tableWith name columns = .ok t) :
    db.find? name = some t ∧ ∀ column ∈ columns, t.has column = true := by
  unfold tableWith table at h
  cases hfind : db.find? name with
  | none => simp [hfind, bind, Except.bind] at h
  | some t' =>
    simp only [hfind, ok_bind] at h
    split at h
    · next hall =>
      obtain rfl := Except.ok.inj h
      exact ⟨rfl, List.all_eq_true.mp hall⟩
    · cases h

end Database

namespace Schema

variable {schema : Schema} {db db' : Database} {table : String} {cells : Cells}

theorem ids_eq_ok (h : schema.ids db table = .ok cells) :
    ∃ t, db.find? table = some t ∧ t.has schema.idColumn = true ∧
      cells = t.cells schema.idColumn := by
  obtain ⟨t, ht, hcells⟩ := Except.bind_eq_ok.mp h
  obtain ⟨hfind, hhas⟩ := Database.tableWith_eq_ok ht
  exact ⟨t, hfind, hhas _ (by simp), (Except.ok.inj hcells).symm⟩

theorem ids_of_find? {t : Table} (h : db.find? table = some t)
    (hhas : t.has schema.idColumn = true) :
    schema.ids db table = .ok (t.cells schema.idColumn) := by
  have ht : db.tableWith table [schema.idColumn] = .ok t :=
    Database.tableWith_of_find? h (by simpa using hhas)
  simp [Schema.ids, Database.cells, ht]

theorem ids_congr {other : String} (h : db.find? table = db'.find? other) :
    schema.ids db table = schema.ids db' other := by
  simp only [Schema.ids, Database.cells, Database.tableWith, Database.table, h]

/-- Where tables grow, so do the ids in them. -/
theorem ids_of_grows (hgrows : Database.Grows db db') (h : schema.ids db table = .ok cells) :
    ∃ more, schema.ids db' table = .ok ⟨cells.affinity, cells.values ++ more⟩ := by
  obtain ⟨t, hfind, hhas, rfl⟩ := ids_eq_ok h
  obtain ⟨rows, hfind'⟩ := hgrows table t hfind
  refine ⟨rows.map (·.get schema.idColumn), (ids_of_find? hfind' hhas).trans ?_⟩
  simp [Table.cells, Table.values, Table.affinity, Table.append]

end Schema

theorem Predicate.filterRows_subset [RegexLibrary] {p : Predicate} {schema : Schema} {t : Table}
    {columns : List String} {rows selected : List Row}
    (h : p.filterRows schema t columns rows = .ok selected) : selected ⊆ rows := by
  unfold filterRows at h
  dsimp only at h
  split at h
  · cases h
  · obtain rfl := Except.ok.inj h
    exact List.filter_subset_self _

/-! ## What searches find

All that a search reaches is among its seeds or at an end of its edges.
-/

section Searches

variable {P : Value → Prop} {arcs : List Arc} {seeds : List Value} {among : List Value → List Value}

namespace Frontier

theorem forall_start (h : ∀ v ∈ seeds, P v) : ∀ v ∈ (start seeds).reached, P v :=
  fun v hv => h v (Value.mem_groups.mp hv)

theorem forall_reached_explore (way : Way) (hseeds : ∀ v ∈ seeds, P v)
    (harcs : ∀ a ∈ arcs, P (a.far way)) (n : Nat) :
    ∀ v ∈ (explore way arcs n (.start seeds) []).1.reached, P v := by
  rw [explore_eq_sweep way arcs n 0]
  refine forall_reached_sweep (fun _ f v hv => ?_) (forall_start hseeds) n 0 []
  obtain ⟨way', hway, a, ha, _, _, rfl⟩ := mem_reach.mp hv
  obtain rfl := List.mem_singleton.mp hway
  exact harcs a ha

theorem mem_crossed_of_explore {way : Way} {n : Nat} {f : Frontier} {id : Value}
    (h : id ∈ (explore way arcs n f []).2) : ∃ a ∈ arcs, a.id = id := by
  rw [explore_eq_sweep way arcs n 0] at h
  refine forall_notes_sweep (N := fun id => ∃ a ∈ arcs, a.id = id) (fun _ f id hid => ?_) n 0 f id h
  obtain ⟨a, ha, rfl⟩ := List.mem_map.mp hid
  exact ⟨a, (mem_exits.mp ha).1, rfl⟩

/-- What is recorded are ends of edges. -/
theorem forall_hops_record {ways : List Way} {f : Frontier}
    (harcs : ∀ a ∈ arcs, P a.child ∧ P a.parent) (n : Nat) :
    ∀ h ∈ (record ways arcs n 1 f []).2, P h.child ∧ P h.parent := by
  rw [record_eq_sweep ways arcs n 0]
  refine forall_notes_sweep (N := fun h : Hop => P h.child ∧ P h.parent) (fun _ f h hh => ?_) n 0 f
  obtain ⟨way, _, hh⟩ := List.mem_flatMap.mp hh
  obtain ⟨a, ha, rfl⟩ := List.mem_map.mp hh
  exact harcs a (mem_exits.mp ha).1

theorem forall_arrivals {ways : List Way} {hops : List Hop} {budget taken : Nat} {f : Frontier}
    (hhops : ∀ h ∈ hops, P h.child ∧ P h.parent) : ∀ v ∈ f.arrivals ways hops budget taken, P v := by
  intro v hv
  obtain ⟨way, _, h, hh, _, _, _, rfl⟩ := mem_arrivals.mp hv
  cases way with
  | ancestor => exact (hhops h hh).2
  | descendant => exact (hhops h hh).1

/-- A search back and forth stays among the sources and the ends of edges. -/
theorem forall_reached_retrace {ways ways' : List Way} {budget : Nat} {f : Frontier}
    (hseeds : ∀ v ∈ seeds, P v) (harcs : ∀ a ∈ arcs, P a.child ∧ P a.parent) (n : Nat) :
    ∀ v ∈ (retrace ways' (record ways arcs n 1 f []).2 budget n 0 (.start seeds) []).1.reached,
      P v := by
  rw [retrace_eq_sweep]
  exact forall_reached_sweep (fun _ _ => forall_arrivals (forall_hops_record harcs n))
    (forall_start hseeds) n 0 []

end Frontier

theorem forall_reached_directedWalks (hamong : ∀ vs, ∀ v ∈ among vs, P v)
    (harcs : ∀ a ∈ arcs, P a.child ∧ P a.parent) (destinations : List Value) (budget : Nat) :
    ∀ v ∈ (directedWalks arcs among destinations budget).1.reached, P v :=
  Frontier.forall_reached_retrace (hamong _) harcs budget

theorem forall_reached_undirectedWalks (hamong : ∀ vs, ∀ v ∈ among vs, P v)
    (harcs : ∀ a ∈ arcs, P a.child ∧ P a.parent) (destinations : List Value) (budget : Nat) :
    ∀ v ∈ (undirectedWalks arcs among destinations budget).reached, P v :=
  Frontier.forall_reached_retrace (hamong _) harcs budget

theorem Shortest.parent_of_mem_back {merged : Bool} {vs : List Value} {n : Nat} {h : TaggedHop}
    (hh : h ∈ (back merged (connections arcs) n 1 (.start vs)).hops) :
    ∃ a ∈ arcs, a.child = h.child ∧ a.parent = h.parent := by
  let start : List Tagged × List Value := ((Value.groups vs).map fun v => ⟨v, v⟩, Value.groups vs)
  change h ∈ (back merged (connections arcs) n 1 ⟨start.1, start.2, []⟩).hops at hh
  rw [back_eq_loop] at hh
  refine (loop_keeps (I := fun _ => True)
    (N := fun h : TaggedHop => ∃ a ∈ arcs, a.child = h.child ∧ a.parent = h.parent)
    (fun _ _ _ => trivial) (fun i s _ h hh => ?_) trivial (by simp) n 0).2 h hh
  obtain ⟨⟨t, c, p⟩, hm, rfl⟩ := List.mem_map.mp hh
  exact (mem_met.mp hm).2.2.2

theorem Shortest.forall_vertices (merged : Bool) (hamong : ∀ vs, ∀ v ∈ among vs, P v)
    (harcs : ∀ a ∈ arcs, P a.parent) (destinations : List Value) (budget : Nat) :
    ∀ v ∈ vertices merged arcs among destinations budget, P v := by
  unfold vertices
  dsimp only
  rw [forward_eq_sweep _ _ _ _ _ []]
  refine Frontier.forall_reached_sweep (fun i f v hv => ?_) (Frontier.forall_start (hamong _)) _ _ _
  obtain ⟨h, hh, hparent⟩ := exists_hop_of_mem_choices hv
  obtain ⟨a, ha, _, hp⟩ := parent_of_mem_back (List.mem_filter.mp hh).1
  exact hparent ▸ hp ▸ harcs a ha

end Searches

namespace Environment

inductive Known (env : Environment) (db : Database) : Element → Value → Prop
  | held {g : GraphRef} {tables : TablePair} {e : Element} {cells : Cells} {v : Value}
      (hg : env.resolve g = .ok tables) (hcells : env.schema.ids db (tables.part e) = .ok cells)
      (hv : v ∈ cells.values) : Known env db e v
  | endpoint {t : Table} {r : Row} {column : String} (ht : db.find? env.schema.edgeTable = some t)
      (hr : r ∈ t.rows) (hcolumn : column ∈ env.endpointColumns .both) :
      Known env db .vertex (r.get column)
  | stored {e : Element} {v : Value} (h : Known env db e v) :
      Known env db e (env.schema.idAffinity.store v)

/-- The id of a row of the annotation table. -/
def IsAnnotated (env : Environment) (db : Database) (e : Element) (v : Value) : Prop :=
  ∃ cells, env.schema.ids db (env.schema.annotationTable e) = .ok cells ∧ v ∈ cells.values

/-- Known ids that are compared as ids, or else as the ids of some graph are. -/
structure Drawn (env : Environment) (db : Database) (e : Element) (cells : Cells) : Prop where
  affinity : cells.affinity = env.schema.idAffinity ∨ ∃ g tables e' held,
    env.resolve g = .ok tables ∧ env.schema.ids db (tables.part e') = .ok held ∧
      held.affinity = cells.affinity
  known : ∀ v ∈ cells.values, env.Known db e v

variable {env : Environment} {db db' : Database} {e : Element} {cells : Cells} {vs : List Value}
  {t : Table} {rows : List Row} {table? : Option String} {columns : List String}

theorem Known.mono {v : Value} (h : env.Known db e v) (hgrows : Database.Grows db db') :
    env.Known db' e v := by
  induction h with
  | held hg hcells hv =>
    obtain ⟨more, hcells'⟩ := Schema.ids_of_grows hgrows hcells
    exact .held hg hcells' (List.mem_append_left more hv)
  | endpoint ht hr hcolumn =>
    obtain ⟨more, ht'⟩ := hgrows _ _ ht
    exact .endpoint ht' (List.mem_append_left more hr) hcolumn
  | stored _ ih => exact .stored ih

namespace Drawn

theorem of_ids {g : GraphRef} {tables : TablePair} (hg : env.resolve g = .ok tables)
    (hcells : env.schema.ids db (tables.part e) = .ok cells) : env.Drawn db e cells :=
  ⟨.inr ⟨g, tables, e, cells, hg, hcells, rfl⟩, fun _ => .held hg hcells⟩

theorem of_scratch (h : ∀ v ∈ vs, env.Known db e v) :
    env.Drawn db e (env.schema.scratchIds vs) := by
  refine ⟨.inl rfl, fun v hv => ?_⟩
  obtain ⟨w, hw, rfl⟩ := List.mem_map.mp hv
  exact .stored (h w hw)

theorem within (h : env.Drawn db e cells) (other : Cells) : env.Drawn db e (cells.within other) :=
  ⟨h.affinity, fun v hv => h.known v (List.mem_filter.mp hv).1⟩

theorem without (h : env.Drawn db e cells) (other : Cells) : env.Drawn db e (cells.without other) :=
  ⟨h.affinity, fun v hv => h.known v (List.mem_filter.mp hv).1⟩

theorem of_annotations (h : env.schema.ids db (env.schema.annotationTable e) = .ok cells) :
    env.Drawn db e cells := by
  cases e with
  | vertex => exact of_ids (g := .base) rfl h
  | edge => exact of_ids (g := .base) rfl h

end Drawn

theorem known_of_groups (h : ∀ v ∈ vs, env.Known db e v) :
    ∀ v ∈ Value.groups vs, env.Known db e v :=
  fun v hv => h v (Value.mem_groups.mp hv)

/-! ## Rows of the annotation tables -/

theorem IsAnnotated.known {v : Value} (h : env.IsAnnotated db e v) : env.Known db e v := by
  obtain ⟨cells, hcells, hv⟩ := h
  exact (Drawn.of_annotations hcells).known v hv

theorem annotated_of_row (ht : db.find? (env.schema.annotationTable e) = some t)
    (hhas : t.has env.schema.idColumn = true) {r : Row} (hr : r ∈ t.rows) :
    env.IsAnnotated db e (r.get env.schema.idColumn) :=
  ⟨_, Schema.ids_of_find? ht hhas, List.mem_map_of_mem hr⟩

/-- Rows cannot be restricted without a column of ids. -/
theorem restrict_eq_ok {table : String} (h : env.restrict db t (some table) = .ok rows) :
    t.has env.schema.idColumn = true ∧ ∃ ids, env.schema.ids db table = .ok ids ∧
      rows = t.rowsWithin env.schema.idColumn ids := by
  obtain ⟨hhas, h⟩ := Except.guard_eq_ok.mp h
  obtain ⟨ids, hids, hrows⟩ := Except.bind_eq_ok.mp h
  exact ⟨by simpa using hhas, ids, hids, (Except.ok.inj hrows).symm⟩

theorem mem_of_restrict (h : env.restrict db t table? = .ok rows) {r : Row} (hr : r ∈ rows) :
    r ∈ t.rows := by
  cases table? with
  | none =>
    obtain rfl := Except.ok.inj h
    exact hr
  | some table =>
    obtain ⟨_, _, _, rfl⟩ := restrict_eq_ok h
    exact (List.mem_filter.mp hr).1

theorem rowsInScope_eq_ok (h : env.rowsInScope db e table? columns = .ok rows) :
    ∃ t, db.find? (env.schema.annotationTable e) = some t ∧
      (∀ column ∈ columns, t.has column = true) ∧ env.restrict db t table? = .ok rows := by
  obtain ⟨t, ht, hrows⟩ := Except.bind_eq_ok.mp h
  obtain ⟨hfind, hhas⟩ := Database.tableWith_eq_ok ht
  exact ⟨t, hfind, hhas, hrows⟩

/-- An edge with a known id and known ends. -/
structure KnownArc (env : Environment) (db : Database) (a : Arc) : Prop where
  id : env.Known db .edge a.id
  child : env.Known db .vertex a.child
  parent : env.Known db .vertex a.parent

theorem KnownArc.far {a : Arc} (h : env.KnownArc db a) (way : Way) :
    env.Known db .vertex (a.far way) := by
  cases way with
  | ancestor => exact h.parent
  | descendant => exact h.child

theorem knownArc_of_arcs {arcs : List Arc} (h : env.arcs db table? = .ok arcs) {a : Arc}
    (ha : a ∈ arcs) : env.KnownArc db a := by
  obtain ⟨rows, hrows, harcs⟩ := Except.bind_eq_ok.mp h
  obtain rfl := Except.ok.inj harcs
  obtain ⟨t, hfind, hhas, hrestrict⟩ := rowsInScope_eq_ok hrows
  obtain ⟨r, hr, rfl⟩ := List.mem_map.mp ha
  have hr := mem_of_restrict hrestrict hr
  have hid := annotated_of_row hfind (hhas _ env.schema.idColumn_mem_reserved) hr
  exact ⟨.stored hid.known, .stored (.endpoint hfind hr (by simp [endpointColumns])),
    .stored (.endpoint hfind hr (by simp [endpointColumns]))⟩

theorem drawn_of_edgesWithin (h : env.edgesWithin db table? vs = .ok cells) :
    env.Drawn db .edge cells := by
  obtain ⟨arcs, harcs, hcells⟩ := Except.bind_eq_ok.mp h
  obtain rfl := Except.ok.inj hcells
  apply Drawn.of_scratch
  intro v hv
  obtain ⟨a, ha, rfl⟩ := List.mem_map.mp hv
  exact (knownArc_of_arcs harcs (List.mem_filter.mp ha).1).id

theorem endpointColumns_subset (endpoint : Endpoint) :
    env.endpointColumns endpoint ⊆ env.endpointColumns .both := by
  cases endpoint <;> simp [endpointColumns]

theorem known_of_endpointsIn {table column : String} (hcolumn : column ∈ env.endpointColumns .both)
    (h : env.endpointsIn db table column = .ok cells) :
    ∀ v ∈ cells.values, env.Known db .vertex v := by
  obtain ⟨t, ht, hcells⟩ := Except.bind_eq_ok.mp h
  obtain ⟨rows, hrows, hcells⟩ := Except.bind_eq_ok.mp hcells
  obtain rfl := Except.ok.inj hcells
  intro v hv
  obtain ⟨r, hr, rfl⟩ := List.mem_map.mp hv
  exact .endpoint (Database.tableWith_eq_ok ht).1 (mem_of_restrict hrows hr) hcolumn

theorem annotated_of_idsMatching [RegexLibrary] {p : Predicate}
    (h : env.idsMatching db e table? p columns = .ok vs) : ∀ v ∈ vs, env.IsAnnotated db e v := by
  obtain ⟨_, h⟩ := Except.guard_eq_ok.mp h
  obtain ⟨t, ht, h⟩ := Except.bind_eq_ok.mp h
  have hfound {rows : List Row} (hrows : rows ⊆ t.rows) (h : (do
      return (← env.restrict db { t with rows } table?).map (·.get env.schema.idColumn)) =
        Except.ok vs) : ∀ v ∈ vs, env.IsAnnotated db e v := by
    obtain ⟨selected, hselected, h⟩ := Except.bind_eq_ok.mp h
    obtain rfl := Except.ok.inj h
    intro v hv
    obtain ⟨r, hr, rfl⟩ := List.mem_map.mp hv
    obtain ⟨hfind, hhas⟩ := Database.tableWith_eq_ok ht
    exact annotated_of_row hfind (hhas _ (by simp)) (hrows (mem_of_restrict hselected hr))
  split at h
  · exact hfound (fun _ => id) h
  · obtain ⟨rows, hrows, h⟩ := Except.bind_eq_ok.mp h
    exact hfound (p.filterRows_subset hrows) h

theorem annotated_of_agreeing {left right : Cells} {keys : List String}
    {pairs : List (Value × Value)} (h : env.agreeing db left right keys = .ok pairs) :
    ∀ pair ∈ pairs, env.IsAnnotated db .vertex pair.1 ∧ env.IsAnnotated db .vertex pair.2 := by
  unfold agreeing at h
  obtain ⟨_, h⟩ := Except.guard_eq_ok.mp h
  obtain ⟨t, ht, h⟩ := Except.bind_eq_ok.mp h
  simp only [pure_eq_ok, Except.ok.injEq] at h
  subst h
  obtain ⟨hfind, hhas⟩ := Database.tableWith_eq_ok ht
  have hrow {cells : Cells} {r : Row} (hr : r ∈ t.rowsWithin env.schema.idColumn cells) :
      env.IsAnnotated db .vertex (r.get env.schema.idColumn) :=
    annotated_of_row (e := .vertex) hfind (hhas _ (by simp)) (List.mem_filter.mp hr).1
  intro pair hpair
  obtain ⟨r, hr, hpair⟩ := List.mem_flatMap.mp hpair
  obtain ⟨r', hr', rfl⟩ := List.mem_map.mp hpair
  exact ⟨hrow hr, hrow (List.mem_filter.mp hr').1⟩

theorem reads_annotationColumns {s : Store} :
    (env.annotationColumns e).reads (fun _ => True) s :=
  .query fun _ _ => trivial

/-- The statement that selects carriers, if one is run, selects ids of rows. -/
theorem reads_carriers {s : Store} {table : String} {keys : List String} :
    (env.carriers table keys).reads (fun found => ∀ ids ∈ found, ∀ db vs, ids db = .ok vs →
      vs.Nodup ∧ ∀ v ∈ vs, env.IsAnnotated db .vertex v) s := by
  unfold carriers
  refine .guard (.bind reads_annotationColumns fun columns _ => ?_)
  split
  · exact .pure (by simp)
  · refine .pure fun ids hids db vs hvs => ?_
    obtain rfl := Option.mem_some_iff.mp hids
    obtain ⟨_, hvs⟩ := Except.guard_eq_ok.mp hvs
    obtain ⟨rows, hrows, hvs⟩ := Except.bind_eq_ok.mp hvs
    obtain rfl := Except.ok.inj hvs
    obtain ⟨t, hfind, _, hrestrict⟩ := rowsInScope_eq_ok hrows
    refine ⟨Value.nodup_groups _, fun v hv => ?_⟩
    obtain ⟨r, hr, rfl⟩ := List.mem_map.mp (Value.mem_groups.mp hv)
    have hr := mem_of_restrict hrestrict (List.mem_filter.mp hr).1
    exact annotated_of_row hfind (restrict_eq_ok hrestrict).1 hr

/-! ## Least edges of groups -/

/-- No id of an edge occurs twice, nulls aside. -/
def UniqueEdges (env : Environment) (db : Database) : Prop :=
  ∀ t, db.find? env.schema.edgeTable = some t →
    ((t.values env.schema.idColumn).filter (· ≠ .null)).Nodup

/-- The least id in a group is that of one of its rows. -/
theorem exists_least (env : Environment) {key : Row → List Value} {k : List Value}
    (hk : k ∈ (rows.map key).eraseDups.mergeSort Value.listLe) :
    ∃ r ∈ rows, key r = k ∧ r.get env.schema.idColumn =
      Value.least ((rows.filter fun r => key r = k).map (·.get env.schema.idColumn)) := by
  rw [List.mem_mergeSort, List.mem_eraseDups] at hk
  obtain ⟨r, hr, rfl⟩ := List.mem_map.mp hk
  have hgroup : r ∈ rows.filter fun r' => key r' = key r := List.mem_filter.mpr ⟨hr, by simp⟩
  have hleast := Value.least_mem (List.ne_nil_of_mem
    (List.mem_map_of_mem (f := (·.get env.schema.idColumn)) hgroup))
  obtain ⟨r', hr', hid⟩ := List.mem_map.mp hleast
  obtain ⟨hr', hkey⟩ := List.mem_filter.mp hr'
  exact ⟨r', hr', by simpa using hkey, hid⟩

variable {table : String} {keys : List String}

theorem annotated_of_leastOfGroups (h : env.rowsInScope db .edge (some table) columns = .ok rows) :
    ∀ v ∈ env.leastOfGroups rows keys, env.IsAnnotated db .edge v := by
  obtain ⟨t, hfind, _, hrestrict⟩ := rowsInScope_eq_ok h
  have hhas := (restrict_eq_ok hrestrict).1
  intro v hv
  obtain ⟨k, hk, rfl⟩ := List.mem_map.mp hv
  obtain ⟨r, hr, _, hid⟩ := exists_least env hk
  exact hid ▸ annotated_of_row (e := .edge) hfind hhas (mem_of_restrict hrestrict hr)

/-- Rows in the scope of a named graph have ids, so these are distinct if no id occurs twice. -/
theorem nodup_ids_of_scope (hunique : env.UniqueEdges db)
    (h : env.rowsInScope db .edge (some table) columns = .ok rows) :
    (rows.map (·.get env.schema.idColumn)).Nodup := by
  obtain ⟨t, hfind, _, hrestrict⟩ := rowsInScope_eq_ok h
  obtain ⟨_, ids, _, rfl⟩ := restrict_eq_ok hrestrict
  refine (hunique t hfind).sublist ?_
  rw [Table.values, List.filter_map]
  refine List.Sublist.map _ (List.monotone_filter_right _ fun r hr => ?_)
  -- a null is no member of any set
  have hmember := (Value.memberOf_iff.mp hr).1
  have hnull : r.get env.schema.idColumn ≠ .null := by
    intro hnull
    rw [hnull, Affinity.store_null] at hmember
    exact hmember rfl
  simpa using hnull

/-- Two groups have no row in common, so their least ids differ. -/
theorem nodup_leastOfGroups (hunique : env.UniqueEdges db)
    (h : env.rowsInScope db .edge (some table) columns = .ok rows) :
    (env.leastOfGroups rows keys).Nodup := by
  have h := nodup_ids_of_scope hunique h
  unfold leastOfGroups
  dsimp only
  refine List.Nodup.map_on (fun k hk k' hk' heq => ?_)
    ((List.mergeSort_perm _ _).nodup_iff.mpr (Value.nodup_eraseDups _))
  obtain ⟨r, hr, hkey, hid⟩ := exists_least env hk
  obtain ⟨r', hr', hkey', hid'⟩ := exists_least env hk'
  obtain rfl : r = r' := List.inj_on_of_nodup_map h hr hr' (hid.trans (heq.trans hid'.symm))
  exact hkey.symm.trans hkey'

/-- A search begins with known vertices. -/
theorem reads_seeds {s : Store} {g : GraphRef} {tables : TablePair}
    (hg : env.resolve g = .ok tables) :
    (env.seeds tables.vertices).reads (fun vs => ∀ v ∈ vs, env.Known s.database .vertex v) s := by
  refine .query fun vs hvs => ?_
  obtain ⟨cells, hcells, hvs⟩ := Except.bind_eq_ok.mp hvs
  obtain rfl := Except.ok.inj hvs
  exact (Drawn.of_scratch (Drawn.of_ids (e := .vertex) hg hcells).known).known

theorem reads_seedsAmong {s : Store} {g : GraphRef} {tables : TablePair}
    (hg : env.resolve g = .ok tables) :
    (env.seedsAmong tables.vertices).reads
      (fun among => ∀ vs, ∀ v ∈ among vs, env.Known s.database .vertex v) s := by
  refine .query fun among hamong vs => ?_
  obtain ⟨cells, hcells, hamong⟩ := Except.bind_eq_ok.mp hamong
  obtain rfl := Except.ok.inj hamong
  exact (Drawn.of_scratch ((Drawn.of_ids (e := .vertex) hg hcells).within _).known).known

theorem reads_arcsFor {s : Store} {steps : Nat} :
    (env.arcsFor table? steps).reads (fun arcs => ∀ a ∈ arcs, env.KnownArc s.database a) s :=
  .ite (.pure (by simp)) (.query fun _ harcs _ => knownArc_of_arcs harcs)

theorem pathTables_eq_ok {subject src dst : GraphRef} {paths : PathTables}
    (h : env.pathTables subject src dst = .ok paths) :
    ∃ edges? sources destinations, env.resolve src = .ok sources ∧
      env.resolve dst = .ok destinations ∧
        paths = ⟨edges?, sources.vertices, destinations.vertices⟩ := by
  obtain ⟨edges?, _, h⟩ := Except.bind_eq_ok.mp h
  obtain ⟨sources, hsources, h⟩ := Except.bind_eq_ok.mp h
  obtain ⟨destinations, hdestinations, h⟩ := Except.bind_eq_ok.mp h
  exact ⟨edges?, sources, destinations, hsources, hdestinations, (Except.ok.inj h).symm⟩

end Environment
end Provenance
