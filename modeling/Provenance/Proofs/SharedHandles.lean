-- SUMMARY: Environments that share one table of handles, and when the names of their tables collide.
import Provenance.Proofs.HandleTables

/-!
# Environments that share one table of handles

Any number of environments, known by labels, register, forget, save and load handles in any order.
Whatever they do, every handle that is registered or saved has tables named under a stem of one of
the environments (`SharedHandles.Named`): one step keeps this, so every history does. It follows
which stems keep the tables of all handles apart.
-/
namespace Provenance

/-! ## Histories -/

/-- The handle of the kind with the name. -/
def HandleKind.handle : HandleKind → String → Handle
  | graph, name => .graph (.named name)
  | metadata, name => .metadata name

namespace Environment

def registry (env : Environment) : HandleKind → Registry
  | .graph => env.graphs
  | .metadata => env.metadata

def register (env : Environment) : HandleKind → Option String → Except Error (String × Environment)
  | .graph => env.registerGraph
  | .metadata => env.registerMetadata

def makeNew (env : Environment) : HandleKind → String × Environment
  | .graph => env.newGraph
  | .metadata => env.newMetadata

def add (env : Environment) : HandleKind → String → Environment
  | .graph => env.addGraph
  | .metadata => env.addMetadata

/-- The environment without handles. -/
def bare (schema : Schema) (stem : String) : Environment := ⟨schema, stem, .empty, .empty⟩

theorem registry_add (env : Environment) (kind kind' : HandleKind) (name : String) :
    (env.add kind name).registry kind' =
      if kind' = kind then (env.registry kind).register name (env.namedTables kind name)
        else env.registry kind' := by
  cases kind <;> cases kind' <;> rfl

theorem stem_add (env : Environment) (kind : HandleKind) (name : String) :
    (env.add kind name).stem = env.stem := by
  cases kind <;> rfl

theorem register_some {env : Environment} {name : String} (h : isHandleName name = true)
    (kind : HandleKind) : env.register kind (some name) = .ok (name, env.add kind name) := by
  cases kind <;> simp [register, registerGraph, registerMetadata, add, handleName?_some h]

/-- What is registered is a name that may be given. -/
theorem of_register {env : Environment} {kind : HandleKind} {given : Option String}
    {result : String × Environment} (h : env.register kind given = .ok result) :
    ∃ name, isHandleName name = true ∧ result = (name, env.add kind name) := by
  cases hgiven : handleName? given with
  | none => cases kind <;> simp [register, registerGraph, registerMetadata, hgiven] at h
  | some name =>
    obtain ⟨rfl, hname⟩ := Option.filter_eq_some_iff.mp hgiven
    rw [register_some hname] at h
    exact ⟨name, hname, (Except.ok.inj h).symm⟩

/-- Nothing is saved that the environment does not want saved. -/
theorem mem_records_of_mem_save {env : Environment} {stored : HandleTable} {row : HandleRecord}
    (h : row ∈ env.save stored) : row ∈ env.records := by
  rcases List.mem_append.mp h with h | h
  · obtain ⟨_, _, hfound⟩ := List.mem_filterMap.mp h
    exact List.mem_of_find?_eq_some hfound
  · exact List.mem_of_mem_filter h

end Environment

/-- What is done with the handles of one environment and the shared table. -/
inductive HandleOperation where
  | register (kind : HandleKind) (name : Option String)
  | makeNew (kind : HandleKind)
  | removeGraph (name : String)
  | save
  | load

/-- The environment and the shared table afterwards. -/
def HandleOperation.apply (env : Environment) (stored : HandleTable) :
    HandleOperation → Environment × HandleTable
  | register kind name =>
    match env.register kind name with
    | .ok (_, env') => (env', stored)
    | .error _ => (env, stored)
  | makeNew kind => ((env.makeNew kind).2, stored)
  | removeGraph name => (env.removeGraph name, stored)
  | save => (env, env.save stored)
  | load => (env.load stored, stored)

inductive HandleStep where
  | create (label : String) (schema : Schema) (stem : Option String)
  | apply (label : String) (operation : HandleOperation)

/-- Environments by label and the table they save their handles in. -/
structure SharedHandles where
  environment? : String → Option Environment
  stored : HandleTable

namespace SharedHandles

def start : SharedHandles := ⟨fun _ => none, []⟩

def put (w : SharedHandles) (label : String) (env : Environment) : SharedHandles :=
  { w with environment? := fun l => if l = label then some env else w.environment? l }

/-- A label stands for the environment that was made last under it. What fails changes nothing. -/
def step (w : SharedHandles) : HandleStep → SharedHandles
  | .create label schema stem =>
    match Environment.create schema stem with
    | .ok env => w.put label env
    | .error _ => w
  | .apply label operation =>
    match w.environment? label with
    | some env =>
      let (env', stored) := operation.apply env w.stored
      { w.put label env' with stored }
    | none => w

def run (w : SharedHandles) (history : List HandleStep) : SharedHandles := history.foldl step w

end SharedHandles

/-- The stem of the environment that the step makes. -/
def HandleStep.stem? : HandleStep → Option String
  | create _ _ stem => handleName? stem
  | apply _ _ => none

/-- Environments are made under the given stems only. -/
def UsesStems (stems : Set String) (history : List HandleStep) : Prop :=
  ∀ step ∈ history, ∀ stem, step.stem? = some stem → stem ∈ stems

/-! ## Tables named under the stems in use -/

variable {stems : Set String} {kind : HandleKind} {name : String} {tables : TablePair}

/-- The handle may have its name and has the tables for it under one of the stems. -/
def NamedUnder (stems : Set String) (kind : HandleKind) (name : String) (tables : TablePair) : Prop :=
  isHandleName name = true ∧ ∃ stem ∈ stems, ∀ e, tables.part e = tableName stem kind name e

def Registry.NamedUnder (stems : Set String) (kind : HandleKind) (r : Registry) : Prop :=
  ∀ slot ∈ r.slots, Provenance.NamedUnder stems kind slot.1 slot.2

namespace Registry.NamedUnder

variable {r : Registry}

theorem empty : Registry.empty.NamedUnder stems kind := fun _ hslot => nomatch hslot

theorem register (h : r.NamedUnder stems kind) (hnew : Provenance.NamedUnder stems kind name tables) :
    (r.register name tables).NamedUnder stems kind := by
  intro slot hslot
  simp only [Registry.register] at hslot
  split at hslot
  · exact h slot hslot
  · rcases List.mem_append.mp hslot with hslot | hslot
    · exact h slot hslot
    · rw [List.mem_singleton.mp hslot]
      exact hnew

theorem replace (h : r.NamedUnder stems kind) (hnew : Provenance.NamedUnder stems kind name tables) :
    (r.replace name tables).NamedUnder stems kind := by
  intro slot hslot
  simp only [Registry.replace] at hslot
  split at hslot
  · obtain ⟨old, hold, rfl⟩ := List.mem_map.mp hslot
    split
    · exact hnew
    · exact h old hold
  · rcases List.mem_append.mp hslot with hslot | hslot
    · exact h slot hslot
    · rw [List.mem_singleton.mp hslot]
      exact hnew

theorem remove (h : r.NamedUnder stems kind) : (r.remove name).NamedUnder stems kind :=
  fun slot hslot => h slot (List.mem_of_mem_filter hslot)

end Registry.NamedUnder

def HandleTable.NamedUnder (stems : Set String) (stored : HandleTable) : Prop :=
  ∀ row ∈ stored, Provenance.NamedUnder stems row.kind row.name row.tables

/-- The environment has one of the stems, and its handles are named under them. -/
structure Environment.NamedUnder (stems : Set String) (env : Environment) : Prop where
  stem : env.stem ∈ stems
  registry : ∀ kind, (env.registry kind).NamedUnder stems kind

namespace Environment.NamedUnder

variable {env : Environment} {stored : HandleTable}

theorem of_create {schema : Schema} {stem : Option String}
    (h : Environment.create schema stem = .ok env)
    (hstem : ∀ s, handleName? stem = some s → s ∈ stems) : env.NamedUnder stems := by
  unfold Environment.create at h
  split at h
  · next s hs =>
    obtain rfl := Except.ok.inj h
    refine ⟨hstem s hs, fun kind => ?_⟩
    cases kind <;> exact .empty
  · cases h

theorem add (h : env.NamedUnder stems) (hname : isHandleName name = true) (kind : HandleKind) :
    (env.add kind name).NamedUnder stems := by
  refine ⟨env.stem_add kind name ▸ h.stem, fun kind' => ?_⟩
  rw [env.registry_add]
  split
  · next hkind =>
    subst hkind
    exact (h.registry kind').register ⟨hname, _, h.stem, env.part_namedTables kind' name⟩
  · exact h.registry kind'

theorem register (h : env.NamedUnder stems) {given : Option String} {result : String × Environment}
    (hresult : env.register kind given = .ok result) : result.2.NamedUnder stems := by
  obtain ⟨name, hname, rfl⟩ := of_register hresult
  exact h.add hname kind

theorem makeNew (h : env.NamedUnder stems) : (env.makeNew kind).2.NamedUnder stems := by
  cases kind with
  | graph => exact h.add (isHandleName_numbered (by decide) (by decide) _) .graph
  | metadata => exact h.add (isHandleName_numbered (by decide) (by decide) _) .metadata

theorem removeGraph (h : env.NamedUnder stems) : (env.removeGraph name).NamedUnder stems := by
  refine ⟨h.stem, fun kind => ?_⟩
  cases kind with
  | graph => exact (h.registry .graph).remove
  | metadata => exact h.registry .metadata

/-- What an environment wants saved are the handles it has. -/
theorem records (h : env.NamedUnder stems) : HandleTable.NamedUnder stems env.records := by
  intro row hrow
  rcases List.mem_append.mp hrow with hrow | hrow
  · obtain ⟨slot, hslot, rfl⟩ := List.mem_map.mp hrow
    exact h.registry .graph slot hslot
  · obtain ⟨slot, hslot, rfl⟩ := List.mem_map.mp hrow
    exact h.registry .metadata slot hslot

/-- Rows that stay get the tables of the environment, so nothing of the old table is left. -/
theorem save (h : env.NamedUnder stems) : HandleTable.NamedUnder stems (env.save stored) :=
  fun row hrow => h.records row (mem_records_of_mem_save hrow)

theorem registryOf (h : HandleTable.NamedUnder stems stored) (kind : HandleKind) :
    (Environment.registryOf kind stored).NamedUnder stems kind := by
  have hrows : ∀ row ∈ stored.filter (·.kind = kind),
      Provenance.NamedUnder stems kind row.name row.tables := by
    intro row hrow
    obtain ⟨hmem, hkind⟩ := List.mem_filter.mp hrow
    rw [← of_decide_eq_true hkind]
    exact h row hmem
  unfold Environment.registryOf
  exact List.foldlRecOn _ _ .empty fun r hr row hrow => hr.replace (hrows row hrow)

theorem load (h : env.NamedUnder stems) (hstored : HandleTable.NamedUnder stems stored) :
    (env.load stored).NamedUnder stems := by
  refine ⟨h.stem, fun kind => ?_⟩
  cases kind with
  | graph => exact registryOf hstored .graph
  | metadata => exact registryOf hstored .metadata

theorem apply (h : env.NamedUnder stems) (hstored : HandleTable.NamedUnder stems stored)
    (operation : HandleOperation) : (operation.apply env stored).1.NamedUnder stems ∧
      HandleTable.NamedUnder stems (operation.apply env stored).2 := by
  cases operation with
  | register kind name =>
    simp only [HandleOperation.apply]
    split
    · next hresult => exact ⟨h.register hresult, hstored⟩
    · exact ⟨h, hstored⟩
  | makeNew kind => exact ⟨h.makeNew, hstored⟩
  | removeGraph name => exact ⟨h.removeGraph, hstored⟩
  | save => exact ⟨h, h.save⟩
  | load => exact ⟨h.load hstored, hstored⟩

end Environment.NamedUnder

namespace SharedHandles

/-- All handles are named under the stems, registered ones and saved ones. -/
structure Named (stems : Set String) (w : SharedHandles) : Prop where
  environments : ∀ label env, w.environment? label = some env → env.NamedUnder stems
  stored : HandleTable.NamedUnder stems w.stored

variable {w : SharedHandles}

theorem named_start : start.Named stems where
  environments _ _ h := nomatch h
  stored _ h := nomatch h

theorem Named.put (h : w.Named stems) {env : Environment} (henv : env.NamedUnder stems)
    (label : String) : (w.put label env).Named stems := by
  refine ⟨fun l env' hl => ?_, h.stored⟩
  simp only [SharedHandles.put] at hl
  split at hl
  · exact Option.some.inj hl ▸ henv
  · exact h.environments l env' hl

theorem Named.step (h : w.Named stems) {step : HandleStep}
    (hstem : ∀ stem, step.stem? = some stem → stem ∈ stems) : (w.step step).Named stems := by
  cases step with
  | create label schema stem =>
    simp only [SharedHandles.step]
    split
    · next hcreate => exact h.put (.of_create hcreate hstem) label
    · exact h
  | apply label operation =>
    simp only [SharedHandles.step]
    split
    · next env henv =>
      have happly := (h.environments label env henv).apply h.stored operation
      exact ⟨(h.put happly.1 label).environments, happly.2⟩
    · exact h

theorem Named.run (h : w.Named stems) {history : List HandleStep}
    (hstems : UsesStems stems history) : (w.run history).Named stems := by
  induction history generalizing w with
  | nil => exact h
  | cons step history ih =>
    exact ih (h.step (hstems step List.mem_cons_self)) fun s hs => hstems s (.tail _ hs)

end SharedHandles

/-! ## Collisions -/

/-- One of the two tables of a handle. -/
structure Slot where
  kind : HandleKind
  name : String
  part : Element
  deriving DecidableEq

/-- The handle is registered, and the table has this name. -/
def Slot.ResolvesTo (env : Environment) (slot : Slot) (table : String) : Prop :=
  ∃ tables, env.tablesOf (slot.kind.handle slot.name) = .ok tables ∧ tables.part slot.part = table

/-- No name stands for two tables of the handles of one environment. -/
def SharedHandles.CollisionFree (w : SharedHandles) : Prop :=
  ∀ label env, w.environment? label = some env → ∀ (slot slot' : Slot) (table : String),
    slot.ResolvesTo env table → slot'.ResolvesTo env table → slot = slot'

theorem Environment.find?_of_tablesOf {env : Environment}
    (h : env.tablesOf (kind.handle name) = .ok tables) :
    (env.registry kind).find? name = some tables := by
  cases kind with
  | graph =>
    simp only [HandleKind.handle, tablesOf, resolve] at h
    split at h
    · next hfind => exact Except.ok.inj h ▸ hfind
    · cases h
  | metadata =>
    simp only [HandleKind.handle, tablesOf, resolveMetadata] at h
    split at h
    · next hfind => exact Except.ok.inj h ▸ hfind
    · cases h

theorem Environment.tablesOf_of_find? {env : Environment}
    (h : (env.registry kind).find? name = some tables) :
    env.tablesOf (kind.handle name) = .ok tables := by
  cases kind with
  | graph => simp [HandleKind.handle, tablesOf, resolve, show env.graphs.find? name = _ from h]
  | metadata =>
    simp [HandleKind.handle, tablesOf, resolveMetadata, show env.metadata.find? name = _ from h]

theorem Slot.resolvesTo_of_find? {env : Environment}
    (h : (env.registry kind).find? name = some tables) (e : Element) :
    Slot.ResolvesTo env ⟨kind, name, e⟩ (tables.part e) :=
  ⟨tables, Environment.tablesOf_of_find? h, rfl⟩

/-- What a slot resolves to is named after its handle under one of the stems. -/
theorem Environment.NamedUnder.exists_tableName {env : Environment} (h : env.NamedUnder stems)
    {slot : Slot} {table : String} (hslot : slot.ResolvesTo env table) :
    isHandleName slot.name = true ∧
      ∃ stem ∈ stems, table = tableName stem slot.kind slot.name slot.part := by
  obtain ⟨tables, htables, rfl⟩ := hslot
  have hmem := Registry.mem_slots_of_find? (find?_of_tablesOf htables)
  obtain ⟨hname, stem, hstem, hparts⟩ := h.registry slot.kind _ hmem
  exact ⟨hname, stem, hstem, hparts slot.part⟩

/-! ## Reloading under another stem -/

theorem Registry.find?_register_of_some {r : Registry} (h : r.find? name = some tables)
    (name' : String) (tables' : TablePair) : (r.register name' tables').find? name = some tables := by
  unfold register
  split
  · exact h
  · simp [find?, List.lookup_append, show r.slots.lookup name = some tables from h]

theorem Registry.find?_register_self {r : Registry} (h : r.find? name = none) (tables : TablePair) :
    (r.register name tables).find? name = some tables := by
  simp [register, contains, find?, List.lookup_append,
    show r.slots.lookup name = none from h]

/-- A handle is saved by one environment and loaded by another, which then registers `g`. -/
def reloading (schema : Schema) (stem other : String) (kind : HandleKind) (name : String) :
    List HandleStep :=
  [.create "saving" schema (some stem), .apply "saving" (.register kind (some name)),
    .apply "saving" .save, .create "loading" schema (some other), .apply "loading" .load,
    .apply "loading" (.register .graph (some "g"))]

theorem usesStems_reloading {schema : Schema} {stem other : String} (hstem : stem ∈ stems)
    (hother : other ∈ stems) : UsesStems stems (reloading schema stem other kind name) := by
  intro step hstep s hs
  have hfilter {given : String} (hs : handleName? (some given) = some s) : s = given :=
    (Option.some.inj (Option.filter_eq_some_iff.mp hs).1).symm
  simp only [reloading, List.mem_cons, List.not_mem_nil, or_false] at hstep
  rcases hstep with rfl | rfl | rfl | rfl | rfl | rfl
  · exact hfilter hs ▸ hstem
  · cases hs
  · cases hs
  · exact hfilter hs ▸ hother
  · cases hs
  · cases hs

namespace SharedHandles

theorem environment?_reloading (schema : Schema) {stem other : String} (kind : HandleKind)
    (hstem : isHandleName stem = true) (hother : isHandleName other = true)
    (hname : isHandleName name = true) :
    (start.run (reloading schema stem other kind name)).environment? "loading" =
      some (((Environment.bare schema other).load
        (((Environment.bare schema stem).add kind name).save [])).add .graph "g") := by
  have hcreate {s : String} (hs : isHandleName s = true) :
      Environment.create schema (some s) = .ok (.bare schema s) := by
    simp [Environment.create, handleName?_some hs, Environment.bare]
  have hg : isHandleName "g" = true := by decide
  simp [reloading, run, step, hcreate hstem, hcreate hother, put, HandleOperation.apply,
    Environment.register_some hname, Environment.register_some hg, start]

/-- The saved handle is the only one that is loaded, with the tables that it had. -/
theorem registry_loaded (schema : Schema) (stem other : String) (kind : HandleKind) (name : String)
    (kind' : HandleKind) :
    ((Environment.bare schema other).load
        (((Environment.bare schema stem).add kind name).save [])).registry kind' =
      if kind' = kind then ⟨[(name, (Environment.bare schema stem).namedTables kind name)]⟩
        else .empty := by
  cases kind <;> cases kind' <;>
    simp [Environment.bare, Environment.load, Environment.save, Environment.records,
      Environment.recordsOf, Environment.registryOf, Environment.add, Environment.addGraph,
      Environment.addMetadata, Environment.registry, Registry.register, Registry.replace,
      Registry.contains, Registry.find?, Registry.empty, Environment.namedTables]

/-- The loaded handle has kept its tables and the new one has those of the loading environment, so
they collide if these have one name. -/
theorem not_collisionFree_reloading (schema : Schema) {stem other : String}
    (hstem : isHandleName stem = true) (hother : isHandleName other = true)
    (hname : isHandleName name = true) (hne : name ≠ "g") {e : Element}
    (heq : tableName stem kind name e = tableName other .graph "g" e) :
    ¬(start.run (reloading schema stem other kind name)).CollisionFree := by
  intro hfree
  have hregistry := registry_loaded schema stem other kind name
  have henv := environment?_reloading schema kind hstem hother hname
  generalize hloaded : (Environment.bare schema other).load
    (((Environment.bare schema stem).add kind name).save []) = loaded at hregistry henv
  have hstem' : loaded.stem = other := by rw [← hloaded]; rfl
  have hold : (loaded.registry kind).find? name =
      some ((Environment.bare schema stem).namedTables kind name) := by
    rw [hregistry, if_pos rfl]
    simp [Registry.find?]
  have hnew : (loaded.registry .graph).find? "g" = none := by
    rw [hregistry]
    split
    · simp [Registry.find?, List.lookup_cons, beq_false_of_ne hne.symm]
    · rfl
  have hregistry' := fun k => loaded.registry_add .graph k "g"
  have hold' : ((loaded.add .graph "g").registry kind).find? name =
      some ((Environment.bare schema stem).namedTables kind name) := by
    rw [hregistry']
    split
    · next hkind => exact Registry.find?_register_of_some (hkind ▸ hold) _ _
    · exact hold
  have hnew' : ((loaded.add .graph "g").registry .graph).find? "g" =
      some (loaded.namedTables .graph "g") := by
    rw [hregistry', if_pos rfl]
    exact Registry.find?_register_self hnew _
  have holdSlot := Slot.resolvesTo_of_find? hold' e
  have hnewSlot := Slot.resolvesTo_of_find? hnew' e
  rw [Environment.part_namedTables, show (Environment.bare schema stem).stem = stem from rfl, heq]
    at holdSlot
  rw [Environment.part_namedTables, hstem'] at hnewSlot
  have hsame := hfree "loading" _ henv _ _ _ holdSlot hnewSlot
  exact hne (congrArg Slot.name hsame)

/-- The table names of all handles stay apart in every history over environments with the given stems
just if none of these stems shadows another. Names are told apart by their letters here, also by the case
of letters. -/
theorem collisionFree_iff_not_shadows {stems : Set String}
    (hstems : ∀ stem ∈ stems, isHandleName stem = true) :
    (∀ history, UsesStems stems history → (start.run history).CollisionFree) ↔
      ∀ stem ∈ stems, ∀ other ∈ stems, ¬Shadows stem other := by
  constructor
  · intro hfree stem hstem other hother hshadows
    obtain ⟨kind, name, hname, hne, heq⟩ := hshadows.exists_tableName
    exact not_collisionFree_reloading Schema.standard (hstems stem hstem) (hstems other hother)
      hname hne (heq .vertex) (hfree _ (usesStems_reloading hstem hother))
  · intro hshadows history hhistory label env henv slot slot' table hslot hslot'
    have hnamed := (named_start.run hhistory).environments label env henv
    obtain ⟨hname, stem, hstem, rfl⟩ := hnamed.exists_tableName hslot
    obtain ⟨hname', other, hother, heq⟩ := hnamed.exists_tableName hslot'
    obtain ⟨hkind, hname, hpart⟩ | h | h := eq_or_shadows_of_tableName hname hname' heq
    · cases slot
      cases slot'
      simp_all
    · exact absurd h (hshadows stem hstem other hother)
    · exact absurd h (hshadows other hother stem hstem)

/-- The handle is reloaded under a stem of which nothing is known to the first environment. -/
theorem collisionFree_iff_not_shadows_archive :
    (start.run (reloading Schema.standard "provstore" "archive" .graph "graph_g")).CollisionFree := by
  have hiff : (∀ history, UsesStems {"provstore", "archive"} history →
      (start.run history).CollisionFree) ↔ _ :=
    collisionFree_iff_not_shadows (by simp; decide)
  refine hiff.mpr ?_ _ (usesStems_reloading (by simp) (by simp))
  simp only [Set.mem_insert_iff, Set.mem_singleton_iff, forall_eq_or_imp, forall_eq]
  decide

/-- A handle that was saved under one stem shares its tables with one registered under a longer stem
after loading. -/
theorem reloaded_handles_collide :
    isHandleName "provstore" = true ∧ isHandleName "provstore_graph" = true ∧
      ∃ env, (start.run (reloading Schema.standard "provstore" "provstore_graph" .graph
          "graph_g")).environment? "loading" = some env ∧
        env.resolve (.named "graph_g") =
          .ok ⟨"provstore_graph_graph_g_vertex", "provstore_graph_graph_g_edge"⟩ ∧
        env.resolve (.named "g") =
          .ok ⟨"provstore_graph_graph_g_vertex", "provstore_graph_graph_g_edge"⟩ :=
  ⟨by decide, by decide, _, rfl, rfl, rfl⟩

end SharedHandles
end Provenance
