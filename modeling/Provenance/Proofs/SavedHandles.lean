-- SUMMARY: Handles that are saved and loaded again.
import Provenance.Proofs.SharedHandles
import Provenance.Proofs.Sources

/-!
# Saving and loading handles

Whatever is done with the handles of an environment, no name stands twice in one of its registries
(`Environment.Reached.distinct`), and the shared table has no two rows for one name and kind. So to
save is to make the rows of the table those of the environment, whatever stood there before, and to
load is to read them back: what was registered in the one environment is registered in the other, with
the same tables.
-/
namespace Provenance

variable {kind : HandleKind} {name : String} {tables : TablePair} {env : Environment}
  {stored : HandleTable}

/-! ## Registries -/

namespace Registry

variable {r : Registry}

/-- No name has two slots. -/
def Distinct (r : Registry) : Prop := r.names.Nodup

theorem Distinct.find?_eq_some_iff (h : r.Distinct) :
    r.find? name = some tables ↔ (name, tables) ∈ r.slots :=
  lookup_eq_some_iff_mem h

theorem contains_iff_mem_names : r.contains name = true ↔ name ∈ r.names := by
  simp [contains, find?, names]

theorem names_replace (r : Registry) (name : String) (tables : TablePair) :
    (r.replace name tables).names = (r.register name tables).names := by
  unfold replace register
  split
  · exact keys_replace r.slots name tables
  · rfl

theorem find?_replace (r : Registry) (name other : String) (tables : TablePair) :
    (r.replace name tables).find? other = if other = name then some tables else r.find? other := by
  unfold replace
  split
  · next hknown =>
    have hlookup : (r.slots.lookup name).isSome := hknown
    simp only [find?, lookup_replace]
    split
    · next hother =>
      subst hother
      obtain ⟨old, hold⟩ := Option.isSome_iff_exists.mp hlookup
      rw [hold, Option.map_some]
    · rfl
  · next hknown =>
    have hlookup : r.slots.lookup name = none := Option.not_isSome_iff_eq_none.mp hknown
    by_cases hother : other = name
    · subst hother
      simp [find?, List.lookup_append, hlookup]
    · simp [find?, List.lookup_append, List.lookup_cons, beq_false_of_ne hother, hother]

namespace Distinct

theorem empty : Registry.empty.Distinct := List.nodup_nil

theorem register (h : r.Distinct) (name : String) (tables : TablePair) :
    (r.register name tables).Distinct := by
  unfold Registry.register
  split
  · exact h
  · next hnew =>
    have hnames : names ⟨r.slots ++ [(name, tables)]⟩ = r.names.concat name := by simp [names]
    rw [Distinct, hnames]
    exact h.concat fun hmem => hnew (contains_iff_mem_names.mpr hmem)

theorem replace (h : r.Distinct) (name : String) (tables : TablePair) :
    (r.replace name tables).Distinct := by
  rw [Distinct, names_replace]
  exact h.register name tables

theorem remove (h : r.Distinct) (name : String) : (r.remove name).Distinct :=
  h.sublist (List.filter_sublist.map _)

end Distinct
end Registry

/-! ## Environments -/

namespace Environment

/-- What becomes of an environment by anything that is done with its handles, whatever tables it
loads them from. -/
inductive Reached : Environment → Prop where
  | create {env : Environment} {schema : Schema} {stem : Option String}
    (h : Environment.create schema stem = .ok env) : Reached env
  | apply {env : Environment} (h : Reached env) (stored : HandleTable)
    (operation : HandleOperation) : Reached (operation.apply env stored).1

/-- No name has two slots among the handles of one kind. -/
def Distinct (env : Environment) : Prop := ∀ kind, (env.registry kind).Distinct

theorem distinct_registryOf (kind : HandleKind) (stored : HandleTable) :
    (registryOf kind stored).Distinct :=
  List.foldlRecOn _ _ .empty fun _ h _ _ => h.replace _ _

namespace Distinct

theorem of_create {schema : Schema} {stem : Option String}
    (h : Environment.create schema stem = .ok env) : env.Distinct := by
  unfold Environment.create at h
  split at h
  · obtain rfl := Except.ok.inj h
    intro kind
    cases kind <;> exact .empty
  · cases h

theorem add (h : env.Distinct) (kind : HandleKind) (name : String) : (env.add kind name).Distinct := by
  intro kind'
  rw [env.registry_add]
  split
  · exact (h kind).register _ _
  · exact h kind'

theorem register (h : env.Distinct) {given : Option String} {result : String × Environment}
    (hresult : env.register kind given = .ok result) : result.2.Distinct := by
  obtain ⟨name, _, rfl⟩ := of_register hresult
  exact h.add kind name

theorem makeNew (h : env.Distinct) (kind : HandleKind) : (env.makeNew kind).2.Distinct := by
  cases kind with
  | graph => exact h.add .graph _
  | metadata => exact h.add .metadata _

theorem removeGraph (h : env.Distinct) (name : String) : (env.removeGraph name).Distinct := by
  intro kind
  cases kind with
  | graph => exact (h .graph).remove name
  | metadata => exact h .metadata

theorem load (env : Environment) (stored : HandleTable) : (env.load stored).Distinct := by
  intro kind
  cases kind with
  | graph => exact distinct_registryOf .graph stored
  | metadata => exact distinct_registryOf .metadata stored

theorem apply (h : env.Distinct) (stored : HandleTable) (operation : HandleOperation) :
    (operation.apply env stored).1.Distinct := by
  cases operation with
  | register kind given =>
    simp only [HandleOperation.apply]
    split
    · next hresult => exact h.register hresult
    · exact h
  | makeNew kind => exact h.makeNew kind
  | removeGraph name => exact h.removeGraph name
  | save => exact h
  | load => exact .load env stored

end Distinct

theorem Reached.distinct (h : env.Reached) : env.Distinct := by
  induction h with
  | create h => exact .of_create h
  | apply _ stored operation ih => exact ih.apply stored operation

/-- A handle means what its registry says. -/
theorem tablesOf_congr {other : Environment}
    (h : (env.registry kind).find? name = (other.registry kind).find? name) :
    env.tablesOf (kind.handle name) = other.tablesOf (kind.handle name) := by
  cases kind with
  | graph =>
    have h : env.graphs.find? name = other.graphs.find? name := h
    simp only [HandleKind.handle, tablesOf, resolve, h]
  | metadata =>
    have h : env.metadata.find? name = other.metadata.find? name := h
    simp only [HandleKind.handle, tablesOf, resolveMetadata, h]

/-- A handle that is known is not registered again, under whatever stem. -/
theorem register_of_find? (h : (env.registry kind).find? name = some tables) :
    env.register kind (some name) =
      if isHandleName name then .ok (name, env) else .error (.invalidHandleName (some name)) := by
  have hcontains : (env.registry kind).contains name = true := by simp [Registry.contains, h]
  split
  · next hname =>
    have hadd : env.add kind name = env := by
      cases kind with
      | graph => simp [add, addGraph, Registry.register, show env.graphs.contains name from hcontains]
      | metadata =>
        simp [add, addMetadata, Registry.register, show env.metadata.contains name from hcontains]
    rw [register_some hname, hadd]
  · next hname =>
    have hnone : handleName? (some name) = none := by simp [handleName?, hname]
    cases kind <;> simp [register, registerGraph, registerMetadata, hnone]

end Environment

/-! ## The shared table -/

/-- What a row of the shared table is known by. -/
def HandleRecord.key (row : HandleRecord) : String × HandleKind := (row.name, row.kind)

/-- There are no two rows for one name and kind. -/
def HandleTable.IsKeyed (stored : HandleTable) : Prop := (stored.map HandleRecord.key).Nodup

theorem HandleTable.IsKeyed.eq_of_key {row row' : HandleRecord} (h : stored.IsKeyed)
    (hrow : row ∈ stored) (hrow' : row' ∈ stored) (hkey : row.key = row'.key) : row = row' :=
  List.inj_on_of_nodup_map h hrow hrow' hkey

namespace Environment

theorem sameHandle_iff {a b : HandleRecord} : sameHandle a b = true ↔ a.key = b.key := by
  simp [sameHandle, HandleRecord.key]

theorem mem_records :
    ⟨name, kind, tables⟩ ∈ env.records ↔ (name, tables) ∈ (env.registry kind).slots := by
  cases kind <;> simp [records, recordsOf, registry]

/-- The rows of different kinds have different keys, and those of one kind have those of its names. -/
theorem Distinct.isKeyed_records (h : env.Distinct) : HandleTable.IsKeyed env.records := by
  have hkeys (kind : HandleKind) :
      ((recordsOf kind (env.registry kind)).map HandleRecord.key).Nodup := by
    have hmap : (recordsOf kind (env.registry kind)).map HandleRecord.key =
        (env.registry kind).names.map (·, kind) := by
      simp [recordsOf, Registry.names, HandleRecord.key, Function.comp_def]
    rw [hmap]
    exact (h kind).map (Prod.mk_left_injective kind)
  rw [HandleTable.IsKeyed, records, List.map_append, List.nodup_append']
  refine ⟨hkeys .graph, hkeys .metadata, fun key hgraph hmetadata => ?_⟩
  simp only [recordsOf, List.map_map, List.mem_map, Function.comp_apply, HandleRecord.key]
    at hgraph hmetadata
  obtain ⟨_, _, rfl⟩ := hgraph
  obtain ⟨_, _, heq⟩ := hmetadata
  cases congrArg Prod.snd heq

/-- For a row of the shared table the wanted one is that of its key. -/
theorem Distinct.find?_records (h : env.Distinct) {old row : HandleRecord} :
    env.records.find? (sameHandle old) = some row ↔ row ∈ env.records ∧ old.key = row.key := by
  constructor
  · intro hfound
    exact ⟨List.mem_of_find?_eq_some hfound, sameHandle_iff.mp (List.find?_some hfound)⟩
  · intro hrow
    obtain ⟨hrow, hkey⟩ := hrow
    obtain ⟨found, hfound⟩ := Option.isSome_iff_exists.mp
      (List.find?_isSome.mpr ⟨row, hrow, sameHandle_iff.mpr hkey⟩)
    have hfoundKey : old.key = found.key := sameHandle_iff.mp (List.find?_some hfound)
    rw [hfound, h.isKeyed_records.eq_of_key (List.mem_of_find?_eq_some hfound) hrow
      (hfoundKey.symm.trans hkey)]

/-- The rows saved are those of the environment. -/
theorem mem_save (h : env.Distinct) {row : HandleRecord} :
    row ∈ env.save stored ↔ row ∈ env.records := by
  refine ⟨mem_records_of_mem_save, fun hrow => ?_⟩
  -- an old row with its key gives way to the row, and without one the row is added
  by_cases hstored : stored.any (sameHandle row) = true
  · obtain ⟨old, hold, hsame⟩ := List.any_eq_true.mp hstored
    have hfound := h.find?_records.mpr ⟨hrow, (sameHandle_iff.mp hsame).symm⟩
    exact List.mem_append_left _ (List.mem_filterMap.mpr ⟨old, hold, hfound⟩)
  · exact List.mem_append_right _ (List.mem_filter.mpr ⟨hrow, by simpa using hstored⟩)

/-- A row that stays keeps its key, and only rows with new keys are added. -/
theorem Distinct.isKeyed_save (h : env.Distinct) (hstored : stored.IsKeyed) :
    (env.save stored).IsKeyed := by
  -- a row stays only as the row wanted for its own key
  have hkept : ((stored.filterMap fun old => env.records.find? (sameHandle old)).map
      HandleRecord.key).Sublist (stored.map HandleRecord.key) := by
    clear hstored
    induction stored with
    | nil => exact .slnil
    | cons old stored ih =>
      cases hfound : env.records.find? (sameHandle old) with
      | none => simpa [hfound] using ih.cons old.key
      | some found => simpa [hfound, (h.find?_records.mp hfound).2] using ih
  have hadded := h.isKeyed_records.sublist
    ((List.filter_sublist (p := fun new => !stored.any (sameHandle new))).map HandleRecord.key)
  rw [HandleTable.IsKeyed, save, List.map_append, List.nodup_append']
  refine ⟨hstored.sublist hkept, hadded, fun key hold hadd => ?_⟩
  obtain ⟨new, hnew, rfl⟩ := List.mem_map.mp hadd
  obtain ⟨old, hold, hkey⟩ := List.mem_map.mp (hkept.subset hold)
  have hfresh := (List.mem_filter.mp hnew).2
  simp only [Bool.not_eq_true', List.any_eq_false] at hfresh
  exact hfresh old hold (sameHandle_iff.mpr hkey.symm)

/-- A table that holds the rows of the environment is left as it is. -/
theorem Distinct.save_eq_self (h : env.Distinct) (hmem : ∀ row, row ∈ stored ↔ row ∈ env.records) :
    env.save stored = stored := by
  have hkept : stored.filterMap (fun old => env.records.find? (sameHandle old)) = stored := by
    rw [List.filterMap_congr fun row hrow => h.find?_records.mpr ⟨(hmem row).mp hrow, rfl⟩,
      List.filterMap_some]
  have hadded : env.records.filter (fun new => !stored.any (sameHandle new)) = [] := by
    rw [List.filter_eq_nil_iff]
    intro new hnew
    simpa using ⟨new, (hmem new).mpr hnew, sameHandle_iff.mpr rfl⟩
  rw [save, hkept, hadded, List.append_nil]

/-! ## Loading -/

/-- Of rows with distinct names each gives its name its tables; what else is registered stays. -/
theorem find?_foldl_replace {rows : HandleTable} (h : (rows.map (·.name)).Nodup) (r : Registry) :
    (rows.foldl (fun r row => r.replace row.name row.tables) r).find? name = some tables ↔
      (∃ row ∈ rows, row.name = name ∧ row.tables = tables) ∨
        name ∉ rows.map (·.name) ∧ r.find? name = some tables := by
  induction rows generalizing r with
  | nil => simp
  | cons row rows ih =>
    obtain ⟨hnew, hrows⟩ := List.nodup_cons.mp h
    rw [List.foldl_cons, ih hrows, Registry.find?_replace]
    by_cases hname : name = row.name
    · -- no later row has the name, so what the first one gave it stays
      subst hname
      have hother : ¬∃ row' ∈ rows, row'.name = row.name ∧ row'.tables = tables := by
        rintro ⟨row', hrow', hname, -⟩
        exact hnew (List.mem_map.mpr ⟨row', hrow', hname⟩)
      simp [hnew, hother]
    · simp [hname, Ne.symm hname]

theorem registry_load (env : Environment) (stored : HandleTable) (kind : HandleKind) :
    (env.load stored).registry kind = registryOf kind stored := by
  cases kind <;> rfl

/-- A loaded handle is one of which there is a row. -/
theorem find?_registryOf (h : stored.IsKeyed) :
    (registryOf kind stored).find? name = some tables ↔ ⟨name, kind, tables⟩ ∈ stored := by
  -- among rows of one kind the names tell keys apart
  have hnames : ((stored.filter (·.kind = kind)).map (·.name)).Nodup := by
    have hkeys := h.sublist ((List.filter_sublist (p := fun row => decide (row.kind = kind))).map
      HandleRecord.key)
    have hmap : (stored.filter (·.kind = kind)).map HandleRecord.key =
        ((stored.filter (·.kind = kind)).map (·.name)).map (·, kind) := by
      rw [List.map_map]
      refine List.map_congr_left fun row hrow => ?_
      have hkind : row.kind = kind := of_decide_eq_true (List.mem_filter.mp hrow).2
      simp [HandleRecord.key, hkind]
    exact (hmap ▸ hkeys).of_map _
  rw [registryOf, find?_foldl_replace hnames]
  simp only [List.mem_filter, decide_eq_true_eq, Registry.find?, Registry.empty, List.lookup_nil,
    reduceCtorEq, and_false, or_false]
  constructor
  · rintro ⟨⟨_, _, _⟩, ⟨hrow, rfl⟩, rfl, rfl⟩
    exact hrow
  · exact fun hrow => ⟨_, ⟨hrow, rfl⟩, rfl, rfl⟩

/-- What is loaded from the table in which an environment saved its handles. -/
theorem find?_load_save (h : env.Distinct) (hstored : stored.IsKeyed) (other : Environment)
    (kind : HandleKind) (name : String) :
    ((other.load (env.save stored)).registry kind).find? name = (env.registry kind).find? name := by
  apply Option.ext
  intro tables
  rw [registry_load, find?_registryOf (h.isKeyed_save hstored), mem_save h, mem_records,
    (h kind).find?_eq_some_iff]

end Environment

/-! ## Histories -/

namespace SharedHandles

variable {w : SharedHandles}

/-- All environments came by their handles somehow, and the shared table is one for them. -/
structure Sound (w : SharedHandles) : Prop where
  environments : ∀ label env, w.environment? label = some env → env.Reached
  stored : w.stored.IsKeyed

theorem sound_start : start.Sound where
  environments _ _ h := nomatch h
  stored := List.nodup_nil

theorem Sound.put (h : w.Sound) (henv : env.Reached) (label : String) : (w.put label env).Sound := by
  refine ⟨fun l env' hl => ?_, h.stored⟩
  simp only [SharedHandles.put] at hl
  split at hl
  · exact Option.some.inj hl ▸ henv
  · exact h.environments l env' hl

theorem Sound.step (h : w.Sound) (step : HandleStep) : (w.step step).Sound := by
  cases step with
  | create label schema stem =>
    simp only [SharedHandles.step]
    split
    · next hcreate => exact h.put (.create hcreate) label
    · exact h
  | apply label operation =>
    simp only [SharedHandles.step]
    split
    · next env henv =>
      have hreached := h.environments label env henv
      refine ⟨(h.put (hreached.apply w.stored operation) label).environments, ?_⟩
      cases operation with
      | register kind given =>
        simp only [HandleOperation.apply]
        split <;> exact h.stored
      | makeNew kind => exact h.stored
      | removeGraph name => exact h.stored
      | save => exact hreached.distinct.isKeyed_save h.stored
      | load => exact h.stored
    · exact h

theorem Sound.run (h : w.Sound) (history : List HandleStep) : (w.run history).Sound := by
  induction history generalizing w with
  | nil => exact h
  | cons step history ih => exact ih (h.step step)

end SharedHandles

/-! ## The round trip -/

/-- However an environment came by its handles and whatever the shared table held, saving leaves in
it a row for each handle and no other, and saving again changes nothing. An environment that loads
the table has the same handles with the same tables and no others, and registers none of them anew. -/
theorem Environment.saved_handles_reload (h : env.Reached) (hstored : stored.IsKeyed)
    (other : Environment) :
    let saved := env.save stored
    let loaded := other.load saved
    saved.IsKeyed ∧
      (∀ row : HandleRecord,
        row ∈ saved ↔ env.tablesOf (row.kind.handle row.name) = .ok row.tables) ∧
      env.save saved = saved ∧
      ∀ kind name,
        loaded.tablesOf (kind.handle name) = env.tablesOf (kind.handle name) ∧
        ∀ tables, loaded.tablesOf (kind.handle name) = .ok tables →
          loaded.register kind (some name) =
            if isHandleName name then .ok (name, loaded)
              else .error (.invalidHandleName (some name)) := by
  intro saved loaded
  have hdistinct := h.distinct
  have hloaded := find?_load_save hdistinct hstored other
  refine ⟨hdistinct.isKeyed_save hstored, fun row => ?_, ?_, fun kind name => ⟨?_, ?_⟩⟩
  · obtain ⟨name, kind, tables⟩ := row
    rw [mem_save hdistinct, mem_records, ← (hdistinct kind).find?_eq_some_iff]
    exact ⟨tablesOf_of_find?, find?_of_tablesOf⟩
  · exact hdistinct.save_eq_self fun row => mem_save hdistinct
  · exact tablesOf_congr (hloaded kind name)
  · exact fun tables htables => register_of_find? (find?_of_tablesOf htables)

/-- One environment saves a graph and metadata and then loads what another one saves over them. -/
def overwriting : List HandleStep :=
  [.create "first" .standard (some "archive"), .apply "first" (.register .graph (some "g1")),
    .apply "first" (.register .metadata (some "old")), .apply "first" .save,
    .create "second" .standard (some "provstore"),
    .apply "second" (.register .graph (some "g1")),
    .apply "second" (.register .metadata (some "g1"))]

/-- The graph of the first environment gives way to that of the second, and its metadata is gone. -/
theorem Environment.saved_handles_reload_overwriting :
    ∃ first second stored,
      (SharedHandles.start.run overwriting).environment? "first" = some first ∧
      (SharedHandles.start.run overwriting).environment? "second" = some second ∧
      (SharedHandles.start.run overwriting).stored = stored ∧
      second.Reached ∧ stored.IsKeyed ∧
      (first.load (second.save stored)).resolve (.named "g1") =
        .ok ⟨"provstore_graph_g1_vertex", "provstore_graph_g1_edge"⟩ ∧
      (first.load (second.save stored)).resolveMetadata "old" = .error (.unknownMetadata "old") ∧
      second.save (second.save stored) = second.save stored := by
  have hsound := SharedHandles.sound_start.run overwriting
  have hreached := hsound.environments "second" _ rfl
  obtain ⟨_, _, hagain, hloaded⟩ := Environment.saved_handles_reload hreached hsound.stored
    (((Environment.bare .standard "archive").add .graph "g1").add .metadata "old")
  exact ⟨_, _, _, rfl, rfl, rfl, hreached, hsound.stored, (hloaded .graph "g1").1,
    (hloaded .metadata "old").1, hagain⟩

end Provenance
