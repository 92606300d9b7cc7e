-- SUMMARY: The vertices that match some vertex of another graph.
import Provenance.Proofs.BlankKeys
import Provenance.Proofs.Nulls
import Provenance.Proofs.Parallel
import Provenance.Proofs.BaseCopy

/-!
# Matches

Two rows agree when both have a value under every key and these are equal, ids compared as text. A vertex
of one graph matches one of another if some row of the one agrees with some row of the other. Agreement
asks neither which row comes first nor in which order the keys are given, and only vertices that carry all
keys can match. So a match may be turned round, its keys may be repeated, and the vertices that do not
carry them may be left out before. Only the depth of the condition is limited.
-/
namespace Provenance

open Program

/-! ## Depths -/

namespace Sql

variable {schema : Schema} {keys : List String}

/-- Every key is one more level. -/
theorem length_le_agreementDepth : keys.length + 4 ≤ agreementDepth schema keys := by
  have := le_foldl_depth (keys.map fun key => referenceDepth schema true key + 3) 4
  rw [List.length_map] at this
  exact (Nat.add_comm ..).trans_le this

theorem agreementDepth_le : agreementDepth schema keys ≤ keys.length + 6 := by
  have hkey : ∀ d ∈ keys.map fun key => referenceDepth schema true key + 3, d ≤ 6 := by
    intro d hd
    obtain ⟨key, _, rfl⟩ := List.mem_map.mp hd
    rw [referenceDepth, if_pos rfl]
    split <;> omega
  have := foldl_depth_le hkey 4
  rw [List.length_map] at this
  exact this.trans_eq (Nat.add_comm ..)

/-- To be present is no deeper a condition than to agree. -/
theorem presenceDepth_le_agreementDepth : presenceDepth keys.length ≤ agreementDepth schema keys := by
  rw [presenceDepth, joinedDepth_replicate (le_refl 3)]
  have : keys.length + 4 ≤ agreementDepth schema keys := length_le_agreementDepth
  omega

end Sql

/-! ## Agreement -/

/-- There is a column for every key, and the row has a value in it. -/
def Table.Carries (t : Table) (keys : List String) (r : Row) : Prop :=
  ∀ key ∈ keys, t.has key = true ∧ r.get key ≠ .null

theorem Value.canonical_eq_null_iff {v : Value} : v.canonical = .null ↔ v = .null := by
  cases v <;> simp [canonical]

theorem Schema.comparedCell_eq_null_iff (schema : Schema) {r : Row} {key : String} :
    schema.comparedCell r key = .null ↔ r.get key = .null := by
  have htext (v : Value) : v.asText = .null ↔ v = .null := by
    rcases v with _ | n | _
    · simp [Value.asText]
    · cases n <;> simp [Value.asText]
    · simp [Value.asText]
  unfold comparedCell
  split
  · exact htext _
  · exact .rfl

namespace Environment

variable {env : Environment} {db : Database} {s : Store} {t : Table} {keys keys' : List String}
  {ls rs ls' rs' vs : List Value} {r r' : Row} {a b v : Value}

/-- Both rows carry all keys, with equal values. -/
structure Agree (env : Environment) (t : Table) (keys : List String) (r r' : Row) : Prop where
  left : t.Carries keys r
  right : t.Carries keys r'
  equal : ∀ key ∈ keys,
    (env.schema.comparedCell r key).canonical = (env.schema.comparedCell r' key).canonical

namespace Agree

theorem symm (h : env.Agree t keys r r') : env.Agree t keys r' r :=
  ⟨h.right, h.left, fun key hkey => (h.equal key hkey).symm⟩

theorem of_subset (hkeys : keys' ⊆ keys) (h : env.Agree t keys r r') : env.Agree t keys' r r' :=
  ⟨fun key hkey => h.left key (hkeys hkey), fun key hkey => h.right key (hkeys hkey),
    fun key hkey => h.equal key (hkeys hkey)⟩

end Agree

theorem agreeOn_iff {key : String} : env.agreeOn r r' key = true ↔
    r.get key ≠ .null ∧ r'.get key ≠ .null ∧
      (env.schema.comparedCell r key).canonical = (env.schema.comparedCell r' key).canonical := by
  rw [agreeOn, Value.sameAs, Value.selects_equals_iff]
  simp only [ne_eq, ← env.schema.comparedCell_eq_null_iff,
    ← Value.canonical_eq_null_iff (v := env.schema.comparedCell _ _)]
  constructor
  · exact fun ⟨hvalue, heq⟩ => ⟨hvalue, heq ▸ hvalue, heq⟩
  · exact fun ⟨hvalue, _, heq⟩ => ⟨hvalue, heq⟩

theorem agree_iff (hhas : ∀ key ∈ keys, t.has key = true) :
    env.Agree t keys r r' ↔ keys.all (env.agreeOn r r') = true := by
  simp only [List.all_eq_true, agreeOn_iff]
  constructor
  · exact fun h key hkey => ⟨(h.left key hkey).2, (h.right key hkey).2, h.equal key hkey⟩
  · exact fun h => ⟨fun key hkey => ⟨hhas key hkey, (h key hkey).1⟩,
      fun key hkey => ⟨hhas key hkey, (h key hkey).2.1⟩, fun key hkey => (h key hkey).2.2⟩

/-! ## Carriers and matches -/

/-- The vertex is among the given ones, and some row of it carries all keys. -/
def Carrier (env : Environment) (t : Table) (vs : List Value) (keys : List String) (v : Value) :
    Prop :=
  v ∈ vs ∧ ∃ r ∈ t.rows, r.get env.schema.idColumn = v ∧ t.Carries keys r

/-- One vertex is on the left, the other on the right, and rows of them agree. -/
def Matching (env : Environment) (t : Table) (ls rs : List Value) (keys : List String)
    (a b : Value) : Prop :=
  a ∈ ls ∧ b ∈ rs ∧ ∃ r ∈ t.rows, ∃ r' ∈ t.rows, r.get env.schema.idColumn = a ∧
    r'.get env.schema.idColumn = b ∧ env.Agree t keys r r'

/-- The vertices on either side that match one on the other. -/
def Matched (env : Environment) (t : Table) (ls rs : List Value) (keys : List String) (v : Value) :
    Prop :=
  (∃ b, env.Matching t ls rs keys v b) ∨ ∃ a, env.Matching t ls rs keys a v

namespace Matching

theorem swap (h : env.Matching t ls rs keys a b) : env.Matching t rs ls keys b a := by
  obtain ⟨ha, hb, r, hr, r', hr', hid, hid', hagree⟩ := h
  exact ⟨hb, ha, r', hr', r, hr, hid', hid, hagree.symm⟩

theorem of_subset (hkeys : keys' ⊆ keys) (h : env.Matching t ls rs keys a b) :
    env.Matching t ls rs keys' a b := by
  obtain ⟨ha, hb, r, hr, r', hr', hid, hid', hagree⟩ := h
  exact ⟨ha, hb, r, hr, r', hr', hid, hid', hagree.of_subset hkeys⟩

theorem carriers (h : env.Matching t ls rs keys a b) :
    env.Carrier t ls keys a ∧ env.Carrier t rs keys b := by
  obtain ⟨ha, hb, r, hr, r', hr', hid, hid', hagree⟩ := h
  exact ⟨⟨ha, r, hr, hid, hagree.left⟩, ⟨hb, r', hr', hid', hagree.right⟩⟩

theorem mem_values (h : env.Matching t ls rs keys a b) :
    a ∈ t.values env.schema.idColumn ∧ b ∈ t.values env.schema.idColumn := by
  obtain ⟨_, _, r, hr, r', hr', rfl, rfl, _⟩ := h
  exact ⟨List.mem_map_of_mem hr, List.mem_map_of_mem hr'⟩

end Matching

/-- Vertices match if they do among those that carry all keys. -/
theorem matching_of_carriers_iff (hls : ∀ v, v ∈ ls' ↔ env.Carrier t ls keys v)
    (hrs : ∀ v, v ∈ rs' ↔ env.Carrier t rs keys v) :
    env.Matching t ls' rs' keys a b ↔ env.Matching t ls rs keys a b := by
  constructor
  · intro ⟨ha, hb, hrows⟩
    exact ⟨((hls a).mp ha).1, ((hrs b).mp hb).1, hrows⟩
  · intro h
    exact ⟨(hls a).mpr h.carriers.1, (hrs b).mpr h.carriers.2, h.2.2⟩

theorem matched_swap_iff : env.Matched t rs ls keys v ↔ env.Matched t ls rs keys v :=
  ⟨fun h => h.symm.imp (Exists.imp fun _ => Matching.swap) (Exists.imp fun _ => Matching.swap),
    fun h => h.symm.imp (Exists.imp fun _ => Matching.swap) (Exists.imp fun _ => Matching.swap)⟩

theorem matched_congr_keys (hsame : ∀ key, key ∈ keys' ↔ key ∈ keys) :
    env.Matched t ls rs keys' v ↔ env.Matched t ls rs keys v := by
  have hmatching (a b : Value) : env.Matching t ls rs keys' a b ↔ env.Matching t ls rs keys a b :=
    ⟨.of_subset fun key => (hsame key).mpr, .of_subset fun key => (hsame key).mp⟩
  simp only [Matched, hmatching]

/-- Without a column for one of the keys nothing matches. -/
theorem not_matched_of_missing {key : String} (hkey : key ∈ keys) (hmissing : t.has key = false) :
    ¬ env.Matched t ls rs keys v := by
  have hnone (a b : Value) : ¬ env.Matching t ls rs keys a b := by
    rintro ⟨_, _, _, _, _, _, _, _, hagree⟩
    simpa [hmissing] using (hagree.left key hkey).1
  simp [Matched, hnone]

/-- The vertex table keeps ids, and no vertex is without one. -/
structure IsVertexTable (env : Environment) (t : Table) : Prop where
  keeps : env.schema.KeepsIds t env.schema.idColumn
  ids : .null ∉ t.values env.schema.idColumn

/-- Every matched vertex has a row in the vertex table. -/
theorem Matched.mem_values (h : env.Matched t ls rs keys v) : v ∈ t.values env.schema.idColumn := by
  rcases h with ⟨_, h⟩ | ⟨_, h⟩
  · exact h.mem_values.1
  · exact h.mem_values.2

/-! ## Statements -/

/-- The ids among the given ones of rows that have a value under all keys. -/
def carrierIds (env : Environment) (t : Table) (vs : List Value) (keys : List String) :
    List Value :=
  Value.groups (((t.rows.filter fun r => (r.get env.schema.idColumn).memberOf vs).filter fun r =>
    keys.all fun key => r.get key ≠ .null).map (·.get env.schema.idColumn))

theorem mem_carrierIds_iff (htable : env.IsVertexTable t) (hhas : ∀ key ∈ keys, t.has key = true) :
    v ∈ env.carrierIds t vs keys ↔ env.Carrier t vs keys v := by
  simp only [carrierIds, Value.mem_groups, List.mem_map, List.mem_filter, Value.memberOf_iff,
    List.all_eq_true, decide_eq_true_eq]
  constructor
  · rintro ⟨r, ⟨⟨hr, _, hin⟩, hvalues⟩, rfl⟩
    exact ⟨hin, r, hr, rfl, fun key hkey => ⟨hhas key hkey, hvalues key hkey⟩⟩
  · rintro ⟨hin, r, hr, rfl, hcarries⟩
    have hnull : r.get env.schema.idColumn ≠ .null :=
      fun hnull => htable.ids (hnull ▸ List.mem_map_of_mem hr)
    exact ⟨r, ⟨⟨hr, hnull, hin⟩, fun key hkey => (hcarries key hkey).2⟩, rfl⟩

section Statements

variable (ht : s.database.find? env.schema.vertexTable = some t) (htable : env.IsVertexTable t)
  (hkeys : keys ≠ [])

include ht hkeys

theorem wp_carriers (hkeeps : env.schema.KeepsIds t env.schema.idColumn)
    (hhas : ∀ key ∈ keys, t.has key = true) (hdepth : Sql.presenceDepth keys.length ≤ Sql.depthLimit)
    {table : String} (hlists : env.schema.Lists s.database table vs) :
    (env.carriers table keys).wp (fun found s' => s' = s ∧ ∃ ids, found = some ids ∧
      ids s.database = .ok (env.carrierIds t vs keys)) s := by
  have hnames : s.database.columnNames env.schema.vertexTable = .ok t.names := by
    simp [Database.columnNames, Database.table, ht]
  unfold carriers
  rw [if_neg (by simpa using hkeys)]
  refine .bind (.query hnames ?_)
  rw [if_neg (by simpa [Table.has] using hhas)]
  refine .pure ⟨rfl, _, rfl, ?_⟩
  simp only [if_neg (Nat.not_lt.mpr hdepth), rowsInScope_of_keeps (e := .vertex) ht hkeeps hlists hhas]
  rfl

/-- No statement is run for a key without a column. -/
theorem wp_carriers_of_missing {key : String} (hkey : key ∈ keys) (hmissing : t.has key = false)
    (table : String) : (env.carriers table keys).wp (fun found s' => s' = s ∧ found = none) s := by
  have hnames : s.database.columnNames env.schema.vertexTable = .ok t.names := by
    simp [Database.columnNames, Database.table, ht]
  unfold carriers
  rw [if_neg (by simpa using hkeys)]
  refine .bind (.query hnames ?_)
  rw [if_pos]
  · exact .pure ⟨rfl, rfl⟩
  · have hall : keys.all t.names.contains = false :=
      List.all_eq_false.mpr ⟨key, hkey, by simpa [Table.has] using hmissing⟩
    simp [hall]

end Statements

/-- The pairs are those that match, whatever the lists are. -/
theorem exists_agreeing (ht : db.find? env.schema.vertexTable = some t)
    (htable : env.IsVertexTable t) (hhas : ∀ key ∈ keys, t.has key = true)
    (hdepth : Sql.agreementDepth env.schema keys ≤ Sql.depthLimit)
    (hls : env.schema.idAffinity.Keeps ls) (hrs : env.schema.idAffinity.Keeps rs) :
    ∃ pairs, env.agreeing db (env.schema.scratchIds ls) (env.schema.scratchIds rs) keys = .ok pairs ∧
      ∀ a b, (a, b) ∈ pairs ↔ env.Matching t ls rs keys a b := by
  have hcolumns : ∀ column ∈ env.schema.idColumn :: keys, t.has column = true := by
    simpa [htable.keeps.has] using hhas
  have hrows (vs : List Value) : t.rowsWithin env.schema.idColumn ⟨env.schema.idAffinity, vs⟩ =
      t.rows.filter fun r => (r.get env.schema.idColumn).memberOf vs :=
    Table.rowsWithin_eq htable.keeps.affinity
  have hmem {vs : List Value} {r : Row} (hr : r ∈ t.rows) :
      (r.get env.schema.idColumn).memberOf vs = true ↔ r.get env.schema.idColumn ∈ vs := by
    rw [Value.memberOf_iff]
    exact and_iff_right fun hnull => htable.ids (hnull ▸ List.mem_map_of_mem hr)
  refine ⟨(t.rows.filter fun r => (r.get env.schema.idColumn).memberOf ls).flatMap fun r =>
    ((t.rows.filter fun r' => (r'.get env.schema.idColumn).memberOf rs).filter fun r' =>
      keys.all (env.agreeOn r r')).map fun r' =>
        (r.get env.schema.idColumn, r'.get env.schema.idColumn), ?_, fun a b => ?_⟩
  · rw [agreeing, if_neg (Nat.not_lt.mpr hdepth), Schema.scratchIds, Schema.scratchIds,
      Cells.ofValues_of_keeps hls, Cells.ofValues_of_keeps hrs]
    simp [Database.tableWith_of_find? ht hcolumns, hrows]
  · simp only [List.mem_flatMap, List.mem_map, List.mem_filter, Prod.mk.injEq]
    constructor
    · rintro ⟨r, ⟨hr, hleft⟩, r', ⟨⟨hr', hright⟩, hagree⟩, rfl, rfl⟩
      exact ⟨(hmem hr).mp hleft, (hmem hr').mp hright, r, hr, r', hr', rfl, rfl,
        (agree_iff hhas).mpr hagree⟩
    · rintro ⟨hleft, hright, r, hr, r', hr', rfl, rfl, hagree⟩
      exact ⟨r, ⟨hr, (hmem hr).mpr hleft⟩, r', ⟨⟨hr', (hmem hr').mpr hright⟩,
        (agree_iff hhas).mp hagree⟩, rfl, rfl⟩

/-! ## The instructions -/

section Instructions

variable {target : String} {tables : TablePair} {lhs rhs g : GraphRef}
  (hscratch : s.CanScratch) (hfresh : env.Fresh s.database target tables)
  (ht : s.database.find? env.schema.vertexTable = some t) (htable : env.IsVertexTable t)
  (hls : env.Holds s.database lhs .vertex ls) (hrs : env.Holds s.database rhs .vertex rs)
  (hkeys : keys ≠ [])

include hfresh ht htable hkeys

/-- The vertices of a graph that carry all keys come to a fresh target. -/
theorem wp_selectCarriers (hg : env.Holds s.database g .vertex vs)
    (hfits : (∀ key ∈ keys, t.has key = true) → Sql.presenceDepth keys.length ≤ Sql.depthLimit) :
    (env.selectCarriers (.named target) g keys).wp (fun _ s' =>
      env.schema.ListsOnce s'.database tables.vertices (env.Carrier t vs keys)) s := by
  obtain ⟨subjects, hsubject, hlists⟩ := hg
  unfold selectCarriers
  refine .bind (.ofExcept hfresh.resolves (.bind (.ofExcept hsubject ?_)))
  by_cases hhas : ∀ key ∈ keys, t.has key = true
  · have hcarrier (v : Value) : v ∈ env.carrierIds t vs keys ↔ env.Carrier t vs keys v :=
      mem_carrierIds_iff htable hhas
    have hkeeps : env.schema.idAffinity.Keeps (env.carrierIds t vs keys) :=
      fun v hv => hlists.keeps v ((hcarrier v).mp hv).1
    obtain ⟨db, hinsert, hlists', _⟩ := (hfresh.lists .vertex).insertColumn hkeeps
    refine .bind ((wp_carriers ht hkeys htable.keeps hhas (hfits hhas) hlists).mono
      fun found s' hfound => ?_)
    obtain ⟨rfl, ids, rfl, hids⟩ := hfound
    refine .update (Except.bind_eq_ok.mpr ⟨_, hids, hinsert⟩) ⟨_, hlists', ?_, hcarrier⟩
    exact Value.nodup_groups _
  · obtain ⟨key, hkey, hmissing⟩ : ∃ key ∈ keys, t.has key = false := by simpa using hhas
    refine .bind ((wp_carriers_of_missing ht hkeys hkey hmissing subjects.vertices).mono
      fun found s' hfound => ?_)
    obtain ⟨rfl, rfl⟩ := hfound
    refine .pure ((hfresh.listsOnce .vertex).congr fun v => ?_)
    simp only [false_iff]
    rintro ⟨_, _, _, _, hcarries⟩
    simpa [hmissing] using (hcarries key hkey).1

include hscratch hls hrs

/-- The vertices that match come to a fresh target. -/
theorem wp_matchVertices (hfits : (∀ key ∈ keys, t.has key = true) →
      Sql.agreementDepth env.schema keys ≤ Sql.depthLimit) :
    (env.matchVertices (.named target) lhs rhs keys).wp (fun _ s' =>
      env.schema.ListsOnce s'.database tables.vertices (env.Matched t ls rs keys) ∧
        Database.SameBut [tables.vertices] s.database s'.database) s := by
  obtain ⟨lefts, hlhs, hleft⟩ := hls
  obtain ⟨rights, hrhs, hright⟩ := hrs
  unfold matchVertices
  refine .bind (.ofExcept hfresh.resolves (.withScratch fun request s₁ hs₁ => ?_))
  refine .bind (.createScratch (hs₁.canScratch hscratch) (by decide) fun s₂ hs₂ => ?_)
  have hs₂ := hs₁.trans hs₂
  refine .bind (.createScratch (hs₂.canScratch hscratch) (by decide) fun s₃ hs₃ => ?_)
  have hs₃ := hs₂.trans hs₃
  have hscratch₃ := hs₃.canScratch hscratch
  rw [← hs₃.database] at hfresh ht hleft hright ⊢
  refine .bind (.ofExcept hlhs ?_)
  by_cases hhas : ∀ key ∈ keys, t.has key = true
  · have hdepth := hfits hhas
    have hpresence := Sql.presenceDepth_le_agreementDepth.trans hdepth
    have hcarrier (vs : List Value) (v : Value) :
        v ∈ env.carrierIds t vs keys ↔ env.Carrier t vs keys v := mem_carrierIds_iff htable hhas
    have hleftKeeps : env.schema.idAffinity.Keeps (env.carrierIds t ls keys) :=
      fun v hv => hleft.keeps v ((hcarrier ls v).mp hv).1
    have hrightKeeps : env.schema.idAffinity.Keeps (env.carrierIds t rs keys) :=
      fun v hv => hright.keeps v ((hcarrier rs v).mp hv).1
    obtain ⟨pairs, hpairs, hmem⟩ := exists_agreeing ht htable hhas hdepth hleftKeeps hrightKeeps
    -- among the carriers the same vertices match as among all
    have hmatching (a b : Value) : (a, b) ∈ pairs ↔ env.Matching t ls rs keys a b :=
      (hmem a b).trans (matching_of_carriers_iff (hcarrier ls) (hcarrier rs))
    have hfound (v : Value) : v ∈ pairs.map (·.1) ++ pairs.map (·.2) ↔
        env.Matched t ls rs keys v := by
      simp [Matched, hmatching]
    refine .bind ((wp_carriers ht hkeys htable.keeps hhas hpresence hleft).mono
      fun found s' hfound => ?_)
    obtain ⟨rfl, leftIds, rfl, hleftIds⟩ := hfound
    refine .bind (.query hleftIds (.bind (.ofExcept hrhs (.bind ?_))))
    refine (wp_carriers ht hkeys htable.keeps hhas hpresence hright).mono fun found s' hfound => ?_
    obtain ⟨rfl, rightIds, rfl, hrightIds⟩ := hfound
    refine .bind (.query hrightIds (.bind (.pure ?_)))
    refine .bind (.createScratch hscratch₃ (by decide) fun s₄ hs₄ => ?_)
    refine .bind (.createScratch (hs₄.canScratch hscratch₃) (by decide) fun s₅ hs₅ => ?_)
    have hs₅ := hs₄.trans hs₅
    rw [← hs₅.database] at hfresh hpairs ⊢
    refine .bind (.query hpairs (.bind (.ofExcept hfresh.resolves ?_)))
    refine .insertFound (hfresh.listsOnce .vertex) (by simp) (fun v hv => ?_) (fun hnull => ?_)
      fun db hl hsame s₆ hs₆ => ?_
    · exact htable.keeps.stored v ((hfound v).mp hv).mem_values
    · exact htable.ids ((hfound _).mp hnull).mem_values
    · rw [hs₆.database]
      exact ⟨hl.congr fun v => by rw [false_or, hfound], hsame⟩
  · obtain ⟨key, hkey, hmissing⟩ : ∃ key ∈ keys, t.has key = false := by simpa using hhas
    refine .bind ((wp_carriers_of_missing ht hkeys hkey hmissing lefts.vertices).mono
      fun found s' hfound => ?_)
    obtain ⟨rfl, rfl⟩ := hfound
    refine .pure fun s₄ hs₄ => ?_
    rw [hs₄.database]
    refine ⟨(hfresh.listsOnce .vertex).congr fun v => ?_, .refl _ _⟩
    simpa using not_matched_of_missing hkey hmissing

end Instructions

/-- A condition that is too deep is refused, before anything is written. -/
theorem matchVertices_refused (target lhs rhs : GraphRef)
    (ht : s.database.find? env.schema.vertexTable = some t) (hhas : ∀ key ∈ keys, t.has key = true)
    (hdepth : Sql.depthLimit < Sql.agreementDepth env.schema keys) :
    (env.matchVertices target lhs rhs keys).ends (fun _ _ => False)
      (fun s' => s'.database = s.database) s := by
  have hcarriers {s' : Store} (hs' : s'.database = s.database) (table : String) :
      (env.carriers table keys).reads (fun found => found ≠ none) s' := by
    unfold carriers
    refine .guard (.bind (.query (q := (· = t.names)) fun names hnames => ?_) fun names hnames => ?_)
    · rw [hs'] at hnames
      simpa [Schema.annotationTable, Database.columnNames, Database.table, ht, eq_comm] using hnames
    · rw [if_neg (by simpa [Table.has, hnames] using hhas)]
      exact .pure (by simp)
  unfold matchVertices
  refine .bind (.ofExcept rfl fun _ _ => .aroundScratch (fun _ _ _ _ => id) fun request s₁ hs₁ => ?_)
  refine .bind (.scratch hs₁ fun s₂ hs₂ => ?_)
  have hs₂ := hs₂.trans hs₁
  refine .bind (.scratch hs₂ fun s₃ hs₃ => ?_)
  have hs₃ := hs₃.trans hs₂
  -- whatever the vertices are that are compared, the statement that compares them is refused
  have hrest (right : Cells) (left : Cells) : (do
      Program.createScratch request "pairs"
      Program.createScratch request "matched"
      let pairs ← Program.query fun db => env.agreeing db left right keys
      let target ← env.writable target
      env.schema.insertNewIds target.vertices fun _ =>
        return env.schema.scratchIds (pairs.map (·.1) ++ pairs.map (·.2)) : Program Unit).ends
      (fun _ _ => False) (fun s' => s'.database = s.database) s₃ := by
    refine .bind (.scratch hs₃ fun s₄ hs₄ => .bind (.scratch (hs₄.trans hs₃) fun s₅ hs₅ => ?_))
    refine .bind (.query (hs₅.trans (hs₄.trans hs₃)) fun pairs hpairs => ?_)
    exact absurd hdepth (Except.guard_eq_ok.mp hpairs).1
  refine .bind (.ofExcept hs₃ fun lefts _ => (hcarriers hs₃ lefts.vertices).bind_ends hs₃
    fun leftIds hleft => ?_)
  obtain ⟨leftIds, rfl⟩ := Option.ne_none_iff_exists'.mp hleft
  refine .bind (.query hs₃ fun left _ => .bind (.ofExcept hs₃ fun rights _ => ?_))
  refine (hcarriers hs₃ rights.vertices).bind_ends hs₃ fun rightIds hright => ?_
  obtain ⟨rightIds, rfl⟩ := Option.ne_none_iff_exists'.mp hright
  exact .bind (.query hs₃ fun right _ => .bind (.pure (hrest _ _)))

section Instructions

variable {target : String} {tables : TablePair} {lhs rhs : GraphRef}
  (hscratch : s.CanScratch) (hfresh : env.Fresh s.database target tables)
  (ht : s.database.find? env.schema.vertexTable = some t) (htable : env.IsVertexTable t)
  (hls : env.Holds s.database lhs .vertex ls) (hrs : env.Holds s.database rhs .vertex rs)
  (hkeys : keys ≠ [])

/-- The condition that rows agree is put to the engine only if there is a column for every key. Then it
may not be too deep. -/
def MatchFits (env : Environment) (t : Table) (keys : List String) : Prop :=
  (∀ key ∈ keys, t.has key = true) → Sql.agreementDepth env.schema keys ≤ Sql.depthLimit

theorem matchFits_of_length (h : keys.length + 6 ≤ Sql.depthLimit) : env.MatchFits t keys :=
  fun _ => Sql.agreementDepth_le.trans h

include hfresh ht in
/-- A match that does not fit leaves the target as it was made. -/
theorem issue_match_of_tooDeep [RegexLibrary] [Summation]
    (lhs rhs : GraphRef) (hfits : ¬ env.MatchFits t keys) :
    let join : Instruction := .matchVertices (.named target) lhs rhs keys
    env.outcome s join ≠ .ok .done ∧
      env.schema.Lists (env.issue s join).database tables.vertices [] := by
  intro join
  obtain ⟨hhas, hdepth⟩ : (∀ key ∈ keys, t.has key = true) ∧
      Sql.depthLimit < Sql.agreementDepth env.schema keys := by
    simpa [MatchFits] using hfits
  have hrefused := matchVertices_refused (.named target) lhs rhs ht hhas hdepth
  have hsame : (env.issue s join).database = s.database := issue_of_refused rfl hrefused
  exact ⟨outcome_of_refused rfl hrefused, hsame ▸ hfresh.lists .vertex⟩

include hscratch hfresh ht htable hls hrs hkeys

theorem issue_match [RegexLibrary] [Summation] (hfits : env.MatchFits t keys) :
    let join : Instruction := .matchVertices (.named target) lhs rhs keys
    env.outcome s join = .ok .done ∧
      env.schema.ListsOnce (env.issue s join).database tables.vertices
        (env.Matched t ls rs keys) ∧
      env.schema.ListsOnce (env.issue s join).database tables.edges fun _ => False := by
  intro join
  obtain ⟨hdone, hv, hsame⟩ := outcome_of_wp (i := join) rfl
    (wp_matchVertices hscratch hfresh ht htable hls hrs hkeys hfits)
  exact ⟨hdone, hv, (hfresh.listsOnce .edge).of_same hsame (by simpa using hfresh.parts.symm)⟩

/-- Another match that finds the same vertices leaves the same graph. -/
theorem issue_match_same [RegexLibrary] [Summation]
    (hfits : env.MatchFits t keys) {lhs' rhs' : GraphRef}
    (hls' : env.Holds s.database lhs' .vertex ls') (hrs' : env.Holds s.database rhs' .vertex rs')
    (hkeys' : keys' ≠ []) (hfits' : env.MatchFits t keys')
    (hsame : ∀ v, env.Matched t ls' rs' keys' v ↔ env.Matched t ls rs keys v) :
    let join : Instruction := .matchVertices (.named target) lhs rhs keys
    let other : Instruction := .matchVertices (.named target) lhs' rhs' keys'
    env.outcome s other = .ok .done ∧
      env.SameContents (env.issue s join).database tables (env.issue s other).database tables := by
  intro join other
  obtain ⟨_, hv, he⟩ := issue_match hscratch hfresh ht htable hls hrs hkeys hfits
  obtain ⟨hdone, hv', he'⟩ := issue_match hscratch hfresh ht htable hls' hrs' hkeys' hfits'
  refine ⟨hdone, fun e => ?_⟩
  cases e with
  | vertex => exact ⟨_, hv, hv'.congr hsame⟩
  | edge => exact ⟨_, he, he'⟩

/-- What matches is found unless the condition is too deep, which it is not up to 994 keys: each vertex of
either graph with a row that agrees with a row of a vertex of the other, once. Nothing matches under a
key without a column. The graphs may be exchanged, and the keys given in any order and repeated. Graphs
of those vertices only that carry all keys match alike, and such a graph is what is selected by the keys. -/
theorem match_exact [RegexLibrary] [Summation] :
    let join : Instruction := .matchVertices (.named target) lhs rhs keys
    let after := env.issue s join
    (env.outcome s join = .ok .done ↔ env.MatchFits t keys) ∧
    (keys.length + 6 ≤ Sql.depthLimit → env.MatchFits t keys) ∧
    (env.MatchFits t keys →
      env.schema.ListsOnce after.database tables.vertices (env.Matched t ls rs keys) ∧
      ((∃ key ∈ keys, t.has key = false) →
        env.schema.ListsOnce after.database tables.vertices fun _ => False) ∧
      (∀ keys', (∀ key, key ∈ keys' ↔ key ∈ keys) → env.MatchFits t keys' →
        ∀ sides ∈ [(lhs, rhs), (rhs, lhs)],
          let other : Instruction := .matchVertices (.named target) sides.1 sides.2 keys'
          env.outcome s other = .ok .done ∧
            env.SameContents after.database tables (env.issue s other).database tables) ∧
      (∀ lhs' rhs' ls' rs', env.Holds s.database lhs' .vertex ls' →
        env.Holds s.database rhs' .vertex rs' → (∀ v, v ∈ ls' ↔ env.Carrier t ls keys v) →
        (∀ v, v ∈ rs' ↔ env.Carrier t rs keys v) →
          let other : Instruction := .matchVertices (.named target) lhs' rhs' keys
          env.outcome s other = .ok .done ∧
            env.SameContents after.database tables (env.issue s other).database tables) ∧
      (∀ g vs, env.Holds s.database g .vertex vs →
        let select : Instruction := .selectCarriers (.named target) g keys
        env.outcome s select = .ok .done ∧
          env.schema.ListsOnce (env.issue s select).database tables.vertices
            (env.Carrier t vs keys))) := by
  intro join after
  refine ⟨⟨fun houtcome => ?_, fun hfits =>
    (issue_match hscratch hfresh ht htable hls hrs hkeys hfits).1⟩, matchFits_of_length, fun hfits => ?_⟩
  · by_contra hdeep
    exact (issue_match_of_tooDeep hfresh ht lhs rhs hdeep).1 houtcome
  obtain ⟨_, hv, _⟩ := issue_match hscratch hfresh ht htable hls hrs hkeys hfits
  refine ⟨hv, ?_, ?_, ?_, ?_⟩
  · rintro ⟨key, hkey, hmissing⟩
    exact hv.congr fun v => iff_false_intro (not_matched_of_missing hkey hmissing)
  · intro keys' hmembers hfits' sides hsides
    have hkeys' : keys' ≠ [] := by
      obtain ⟨key, hkey⟩ := List.exists_mem_of_ne_nil keys hkeys
      exact List.ne_nil_of_mem ((hmembers key).mpr hkey)
    simp only [List.mem_cons, List.not_mem_nil, or_false] at hsides
    rcases hsides with rfl | rfl
    · exact issue_match_same hscratch hfresh ht htable hls hrs hkeys hfits hls hrs hkeys' hfits'
        fun v => matched_congr_keys hmembers
    · exact issue_match_same hscratch hfresh ht htable hls hrs hkeys hfits hrs hls hkeys' hfits'
        fun v => (matched_congr_keys hmembers).trans matched_swap_iff
  · intro lhs' rhs' ls' rs' hls' hrs' hleft hright
    refine issue_match_same hscratch hfresh ht htable hls hrs hkeys hfits hls' hrs' hkeys hfits
      fun v => ?_
    simp only [Matched, matching_of_carriers_iff hleft hright]
  · intro g vs hg select
    exact outcome_of_wp (i := select) rfl (wp_selectCarriers hfresh ht htable hkeys hg fun hhas =>
      Sql.presenceDepth_le_agreementDepth.trans (hfits hhas))

end Instructions
end Environment

/-! ## Two vertices with one value -/

namespace SmallWorld

/-- Two vertices that agree on the only key there is. -/
def alike : Table :=
  ⟨[⟨"hash", .text⟩, ⟨"k", .text⟩], [⟨[("hash", .text "a"), ("k", .text "x")]⟩,
    ⟨[("hash", .text "b"), ("k", .text "x")]⟩]⟩

/-- One of them is in `src`, the other in `dst`. -/
def sided : Store := holding alike (edgeRows []) (["a"], []) (["b"], [])

theorem sided_vertexTable :
    sided.database.find? environment.schema.vertexTable = some alike :=
  holding_vertexTable ..

theorem alike_isVertexTable : environment.IsVertexTable alike := by
  refine ⟨⟨rfl, rfl, fun v hv => ?_⟩, by decide⟩
  have hids : alike.values environment.schema.idColumn = [.text "a", .text "b"] := rfl
  simp only [hids, List.mem_cons, List.not_mem_nil, or_false] at hv
  rcases hv with rfl | rfl <;> rfl

theorem sided_src : environment.Holds sided.database (.named "src") .vertex [.text "a"] :=
  holding_src_vertices ..

theorem sided_dst : environment.Holds sided.database (.named "dst") .vertex [.text "b"] :=
  holding_dst_vertices ..

theorem sided_fresh : environment.Fresh sided.database "out" (tables "out") := holding_fresh_out ..

/-- The two match under the key, however often it is given. -/
theorem matching_alike (n : Nat) : environment.Matching alike [.text "a"] [.text "b"]
    (List.replicate n "k") (.text "a") (.text "b") := by
  refine ⟨by simp, by simp, _, List.mem_cons_self, _, List.mem_cons_of_mem _ List.mem_cons_self, rfl,
    rfl, ?_, ?_, ?_⟩
  all_goals
    intro key hkey
    obtain rfl := List.eq_of_mem_replicate hkey
    decide

def matchSides (keys : List String) : Instruction :=
  .matchVertices (.named "out") (.named "src") (.named "dst") keys

theorem match_exact_alike :
    environment.outcome sided (matchSides ["k"]) = .ok .done ∧
      environment.schema.ListsOnce (environment.issue sided (matchSides ["k"])).database
        (tables "out").vertices (fun v => v = .text "a" ∨ v = .text "b") := by
  have hkeys : ["k"] ≠ [] := by simp
  obtain ⟨hdone, hlength, hfound⟩ := Environment.match_exact (holding_canScratch ..) sided_fresh
    sided_vertexTable alike_isVertexTable sided_src sided_dst hkeys
  have hfits := hlength (by decide)
  refine ⟨hdone.mpr hfits, (hfound hfits).1.congr fun v => ⟨?_, ?_⟩⟩
  · rintro (⟨_, hleft, _⟩ | ⟨_, _, hright, _⟩)
    · exact .inl (List.mem_singleton.mp hleft)
    · exact .inr (List.mem_singleton.mp hright)
  · rintro (rfl | rfl)
    · exact .inl ⟨_, matching_alike 1⟩
    · exact .inr ⟨_, matching_alike 1⟩

/-- A key given too often makes a condition that is too deep, and nothing is found. -/
theorem not_match_exact_manyKeys :
    let keys := List.replicate 1005 "k"
    environment.outcome sided (matchSides keys) ≠ .ok .done ∧
      ¬ environment.schema.ListsOnce (environment.issue sided (matchSides keys)).database
        (tables "out").vertices (environment.Matched alike [.text "a"] [.text "b"] keys) := by
  intro keys
  have hdeep : ¬ environment.MatchFits alike keys := by
    intro hfits
    have hdepth := hfits fun key hkey => by
      obtain rfl := List.eq_of_mem_replicate hkey
      rfl
    have hlength := Sql.length_le_agreementDepth.trans hdepth
    rw [List.length_replicate] at hlength
    exact absurd hlength (by decide)
  obtain ⟨hrefused, hnothing⟩ := Environment.issue_match_of_tooDeep sided_fresh sided_vertexTable
    (.named "src") (.named "dst") hdeep
  refine ⟨hrefused, fun hfound => ?_⟩
  obtain ⟨found, hlists, _, hmatched⟩ := hfound
  obtain rfl := hlists.unique hnothing
  exact absurd ((hmatched (.text "a")).mpr (.inl ⟨_, matching_alike 1005⟩)) (by simp)

end SmallWorld
end Provenance
