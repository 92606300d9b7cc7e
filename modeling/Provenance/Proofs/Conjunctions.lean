-- SUMMARY: Lookups by several predicates against chains of selections by one predicate each.
import Provenance.Proofs.Lookups
import Provenance.Proofs.BaseCopy
import Provenance.Proofs.Growth

/-!
# Conjunctions

Several predicates may be asked for at once, in a lookup, or one after the other, in a chain of
selections each of which narrows down what the one before has found. Either way those elements are
found that satisfy all predicates, and a chain may take them in any order. Only the depth of the
conditions is limited. That of a lookup grows with every predicate, those of a chain do not.
-/
namespace Provenance

open Program

/-! ## Lookups -/

/-- The same comparison under the name of the column that a key stands for. -/
def Predicate.onColumn (p : Predicate) (aliases : String → String) : Predicate :=
  { p with key := aliases p.key }

namespace Source

/-- The column that a key of a predicate stands for. -/
def aliasOf (schema : Schema) : Element → String → String
  | .vertex => id
  | .edge => edgeAlias schema

/-- The ids of the elements that satisfy all predicates. -/
def lookup [RegexLibrary] (source : Source) (e : Element) (ps : List Predicate) : Except Error (List String) :=
  match e with
  | .vertex => return (← source.vertices ps).map (·.id)
  | .edge => return (← source.edges ps).map (·.id)

variable {schema : Schema} {db : Database} {t : Table} {aliases : String → String} {e : Element}
  {ps : List Predicate}

/-- In tables a lookup names the columns that a selection by the same predicates names. -/
theorem mem_columnsOf_iff {p : Predicate}
    (hwildcard : (p.onColumn aliases).isWildcard = p.isWildcard) (existing : List String) (c : String) :
    c ∈ columnsOf aliases existing p ↔ c ∈ (p.onColumn aliases).columnsIn existing := by
  rw [columnsOf, Predicate.columnsIn, hwildcard]
  split
  · simp
  · rfl

theorem lookup_tables [RegexLibrary] (ht : db.tableWith (schema.annotationTable e) (schema.ownColumns e) = .ok t)
    (ps : List Predicate) :
    (tables schema db).lookup e ps = (selectRows schema t (aliasOf schema e) ps).map
      fun rows => (rows.map (·.get schema.idColumn)).map Value.label := by
  cases e with
  | vertex =>
    have ht : db.tableWith schema.vertexTable [schema.idColumn] = .ok t := ht
    simp only [lookup, vertices, ht, ok_bind]
    show _ = (selectRows schema t id ps).map _
    cases selectRows schema t id ps <;> simp [Except.map, bind, Except.bind, Schema.vertexOf]
  | edge =>
    have ht : db.tableWith schema.edgeTable schema.reserved = .ok t := ht
    simp only [lookup, edges, ht, ok_bind]
    show _ = (selectRows schema t (edgeAlias schema) ps).map _
    cases selectRows schema t (edgeAlias schema) ps <;>
      simp [Except.map, bind, Except.bind, Schema.edgeOf]

end Source

/-! ## Chains of selections -/

namespace Instruction

/-- Selections by some predicates, each from what the one before has put into its target. -/
def selections (e : Element) : GraphRef → List (Predicate × String) → List Instruction
  | _, [] => []
  | g, (p, target) :: rest =>
    .select e (.named target) g (some p) :: selections e (.named target) rest

/-- Where the selections end. -/
def lastTarget : GraphRef → List (Predicate × String) → GraphRef
  | g, [] => g
  | _, (_, target) :: rest => lastTarget (.named target) rest

end Instruction

/-! ## Selections -/

namespace Environment

variable {env : Environment} {s : Store} {db : Database} {e : Element} {t : Table} {g : GraphRef}
  {p : Predicate} {ps : List Predicate} {vs : List Value} {name : String} {tables : TablePair}
  {steps : List (Predicate × String)}

/-- The table keeps ids, each of them once. -/
structure IsKeyed (env : Environment) (t : Table) : Prop where
  keeps : env.schema.KeepsIds t env.schema.idColumn
  ids : .null ∉ t.values env.schema.idColumn
  once : (t.values env.schema.idColumn).Nodup

theorem IsKeyed.eq_of_id (h : env.IsKeyed t) {r r' : Row} (hr : r ∈ t.rows) (hr' : r' ∈ t.rows)
    (hid : r.get env.schema.idColumn = r'.get env.schema.idColumn) : r = r' :=
  List.inj_on_of_nodup_map h.once hr hr' hid

/-- A row of that id satisfies the predicate. -/
def Satisfies [RegexLibrary] (env : Environment) (t : Table) (p : Predicate) (v : Value) : Prop :=
  ∃ r ∈ t.rows, r.get env.schema.idColumn = v ∧
    p.admitsIn env.schema t (p.columnsIn t.names) r = true

/-- The condition of a selection is put to the engine unless the predicate is hopeless. Then it may not
be too deep, together with the restriction to a graph. -/
def SelectFits (env : Environment) (t : Table) (g : GraphRef) (p : Predicate) : Prop :=
  ¬ p.IsHopeless (p.columnsIn t.names) →
    Sql.selectDepth env.schema g (p.columnsIn t.names) ≤ Sql.depthLimit

/-- Restricted to a graph are the rows whose ids it holds. -/
theorem restrict_of_holds (htable : env.IsKeyed t)
    (ht : db.find? (env.schema.annotationTable e) = some t) (hg : env.Holds db g e vs)
    {table? : Option String} (hscope : env.restriction? g e = .ok table?) {rows : List Row}
    (hrows : rows ⊆ t.rows) : env.restrict db { t with rows } table? =
      .ok (rows.filter fun r => r.get env.schema.idColumn ∈ vs) := by
  obtain ⟨found?, hscope', hfound⟩ := hg.restriction?
  obtain rfl := Except.ok.inj (hscope'.symm.trans hscope)
  obtain ⟨rfl, hl⟩ | ⟨table, rfl, hl⟩ := hfound
  · obtain ⟨t', ht', _, rfl⟩ := hl
    obtain rfl : t = t' := Option.some.inj (ht.symm.trans ht')
    refine congrArg Except.ok (List.filter_eq_self.mpr fun r hr => decide_eq_true ?_).symm
    exact List.mem_map_of_mem (hrows hr)
  · have hhas : Table.has { t with rows } env.schema.idColumn = true := htable.keeps.has
    have haffinity : Table.affinity { t with rows } env.schema.idColumn =
        (⟨env.schema.idAffinity, vs⟩ : Cells).affinity := htable.keeps.affinity
    simp only [restrict, hhas, hl.ids, ok_bind, Table.rowsWithin_eq haffinity]
    refine congrArg Except.ok (List.filter_congr fun r hr => ?_)
    rw [Bool.eq_iff_iff, Value.memberOf_iff, decide_eq_true_eq]
    exact and_iff_right fun hnull => htable.ids (hnull ▸ List.mem_map_of_mem (hrows hr))

/-- The statement of a selection finds those elements of the graph that satisfy the predicate. -/
theorem exists_idsMatching [RegexLibrary] (htable : env.IsKeyed t)
    (ht : db.find? (env.schema.annotationTable e) = some t) (hg : env.Holds db g e vs)
    {table? : Option String} (hscope : env.restriction? g e = .ok table?) (hvalid : p.IsValid)
    (hruns : p.columnsIn t.names = [] → p.operator = .notEqual)
    (hdepth : Sql.selectDepth env.schema g (p.columnsIn t.names) ≤ Sql.depthLimit) :
    ∃ ids, env.idsMatching db e table? p (p.columnsIn t.names) = .ok ids ∧
      ∀ v, v ∈ ids ↔ v ∈ vs ∧ env.Satisfies t p v := by
  let selected := t.rows.filter (p.admitsIn env.schema t (p.columnsIn t.names))
  have hselected : (if (p.columnsIn t.names).isEmpty then pure t.rows
      else p.filterRows env.schema t (p.columnsIn t.names) t.rows) = .ok selected := by
    by_cases hnone : p.columnsIn t.names = []
    · rw [if_pos (by simpa using hnone)]
      refine congrArg Except.ok (List.filter_eq_self.mpr fun r _ => ?_).symm
      simp [Predicate.admitsIn, hnone, hruns hnone]
    · rw [if_neg (by simpa using hnone), hvalid.filterRows_eq hnone]
  have hrows := restrict_of_holds htable ht hg hscope (List.filter_subset_self _ : selected ⊆ t.rows)
  refine ⟨_, idsMatching_of_restrict ht htable.keeps.has hscope hdepth hselected hrows, fun v => ?_⟩
  simp only [List.mem_map, List.mem_filter, decide_eq_true_eq]
  constructor
  · rintro ⟨r, ⟨⟨hr, hadmits⟩, hin⟩, rfl⟩
    exact ⟨hin, r, hr, rfl, hadmits⟩
  · rintro ⟨hin, r, hr, rfl, hadmits⟩
    exact ⟨r, ⟨⟨hr, hadmits⟩, hin⟩, rfl⟩

/-- What a selection brings to a fresh target. -/
theorem wp_select_of_fits [RegexLibrary] (htable : env.IsKeyed t)
    (ht : s.database.find? (env.schema.annotationTable e) = some t)
    (hg : env.Holds s.database g e vs) (hfresh : env.Fresh s.database name tables)
    (hvalid : p.IsValid) (hfits : env.SelectFits t g p) :
    (env.select e (.named name) g (some p)).wp (fun _ s' =>
      env.schema.ListsOnce s'.database (tables.part e) (fun v => v ∈ vs ∧ env.Satisfies t p v) ∧
        Database.SameBut [tables.part e] s.database s'.database) s := by
  obtain ⟨subjects, hsubject, _⟩ := id hg
  obtain ⟨table?, hscope, _⟩ := hg.restriction?
  have hnames : s.database.columnNames (env.schema.annotationTable e) = .ok t.names := by
    simp [Database.columnNames, Database.table, ht]
  unfold select
  refine .bind (.ofExcept hfresh.resolves (.bind (.ofExcept hsubject ?_)))
  refine .bind (.ofExcept hscope (.bind (.query hnames ?_)))
  by_cases hopeless : p.IsHopeless (p.columnsIn t.names)
  · rw [if_pos (by simpa [Predicate.IsHopeless] using hopeless)]
    refine .pure ⟨(hfresh.listsOnce e).congr fun v => ?_, .refl _ _⟩
    rw [false_iff]
    rintro ⟨_, r, _, _, hadmits⟩
    rw [Predicate.not_admitsIn_of_isHopeless hopeless] at hadmits
    cases hadmits
  · have hruns := Predicate.not_isHopeless_iff.mp hopeless
    rw [if_neg (by simpa using hruns)]
    obtain ⟨ids, hids, hmem⟩ :=
      exists_idsMatching htable ht hg hscope hvalid hruns (hfits hopeless)
    have hkeeps : env.schema.idAffinity.Keeps (Value.groups ids) :=
      fun v hv => hg.keeps v ((hmem v).mp (Value.mem_groups.mp hv)).1
    obtain ⟨db, hinsert, hl, hsame⟩ := (hfresh.lists e).insertColumn hkeeps
    refine .update (by simp only [hids, ok_bind, pure_eq_ok, hinsert]) ⟨⟨_, hl, ?_, fun v => ?_⟩, hsame⟩
    · exact Value.nodup_groups _
    · rw [List.nil_append, Value.mem_groups, hmem]

theorem issue_select_of_fits [RegexLibrary] [Summation] (htable : env.IsKeyed t)
    (ht : s.database.find? (env.schema.annotationTable e) = some t)
    (hg : env.Holds s.database g e vs) (hfresh : env.Fresh s.database name tables)
    (hvalid : p.IsValid) (hfits : env.SelectFits t g p) :
    let i : Instruction := .select e (.named name) g (some p)
    env.outcome s i = .ok .done ∧
      env.schema.ListsOnce (env.issue s i).database (tables.part e)
        (fun v => v ∈ vs ∧ env.Satisfies t p v) ∧
      Database.SameBut [tables.part e] s.database (env.issue s i).database :=
  outcome_of_wp rfl (wp_select_of_fits htable ht hg hfresh hvalid hfits)

theorem outcome_select_of_not_fits [RegexLibrary] [Summation] {target : GraphRef}
    (ht : s.database.find? (env.schema.annotationTable e) = some t) (hfits : ¬ env.SelectFits t g p) :
    env.outcome s (.select e target g (some p)) ≠ .ok .done := by
  obtain ⟨hopeless, hdepth⟩ := Classical.not_imp.mp hfits
  exact outcome_of_refused rfl
    (select_refused ht (Predicate.not_isHopeless_iff.mp hopeless) (Nat.not_le.mp hdepth))

/-! ## Their runs -/

/-- All instructions are carried out, one after another. -/
def Succeeds [RegexLibrary] [Summation] (env : Environment) : Store → List Instruction → Prop
  | _, [] => True
  | s, i :: is => env.outcome s i = .ok .done ∧ env.Succeeds (env.issue s i) is

/-- Every selection of a chain fits. Only the first may be from the base graph. -/
def ChainFits (env : Environment) (t : Table) : GraphRef → List (Predicate × String) → Prop
  | _, [] => True
  | g, (p, target) :: rest => env.SelectFits t g p ∧ env.ChainFits t (.named target) rest

theorem chainFits_of_le (h : t.names.length + 4 ≤ Sql.depthLimit) : env.ChainFits t g steps := by
  induction steps generalizing g with
  | nil => trivial
  | cons step rest ih =>
    refine ⟨fun _ => (Sql.selectDepth_le _ _ _).trans (le_trans (Nat.add_le_add_right ?_ 4) h), ih⟩
    rw [Predicate.columnsIn]
    split
    · exact le_refl _
    · exact List.length_filter_le _ _

/-- A chain is carried out and ends with the element. -/
def ChainFinds [RegexLibrary] [Summation] (env : Environment) (s : Store) (e : Element) (steps : List (Predicate × String))
    (v : Value) : Prop :=
  env.Succeeds s (Instruction.selections e .base steps) ∧ ∃ found,
    env.Holds (env.issueAll s (Instruction.selections e .base steps)).database
      (Instruction.lastTarget .base steps) e found ∧ v ∈ found

/-- The targets of a chain are fresh, and none is used twice. -/
structure Targets (env : Environment) (db : Database) (steps : List (Predicate × String)) : Prop where
  fresh : ∀ step ∈ steps, ∃ tables, env.Fresh db step.2 tables
  names : (steps.map (·.2)).Nodup

/-- The targets ahead stay fresh while the first is written to. -/
theorem Targets.tail {db' : Database} {target : String} (h : env.Targets db ((p, target) :: steps))
    (hapart : env.Apart) (hresolve : env.resolve (.named target) = .ok tables)
    (hsame : Database.SameBut [tables.part e] db db') : env.Targets db' steps := by
  obtain ⟨hfirst, hrest⟩ := List.nodup_cons.mp h.names
  refine ⟨fun step hstep => ?_, hrest⟩
  obtain ⟨others, hfresh⟩ := h.fresh step (List.mem_cons_of_mem _ hstep)
  have hne : Handle.graph (.named step.2) ≠ .graph (.named target) := by
    simp only [ne_eq, Handle.graph.injEq, GraphRef.named.injEq]
    exact fun heq => hfirst (List.mem_map.mpr ⟨step, hstep, heq⟩)
  refine ⟨others, hfresh.of_same (hsame.mono ?_) (hapart _ _ _ _ hne hfresh.resolves hresolve)⟩
  cases e <;> simp

/-- A chain is carried out if all its selections fit, and then it ends with those elements of where it
starts that satisfy all predicates. -/
theorem chain_exact [RegexLibrary] [Summation] (hapart : env.Apart) (htable : env.IsKeyed t)
    (ht : s.database.find? (env.schema.annotationTable e) = some t)
    (hg : env.Holds s.database g e vs) (hnodup : vs.Nodup) (htargets : env.Targets s.database steps)
    (hvalid : ∀ step ∈ steps, step.1.IsValid) :
    (env.Succeeds s (Instruction.selections e g steps) ↔ env.ChainFits t g steps) ∧
      (env.ChainFits t g steps → ∃ found,
        env.Holds (env.issueAll s (Instruction.selections e g steps)).database (Instruction.lastTarget g steps) e found ∧
          found.Nodup ∧ ∀ v, v ∈ found ↔ v ∈ vs ∧ ∀ step ∈ steps, env.Satisfies t step.1 v) := by
  induction steps generalizing s g vs with
  | nil => exact ⟨Iff.rfl, fun _ => ⟨vs, hg, hnodup, by simp⟩⟩
  | cons step rest ih =>
    obtain ⟨p, target⟩ := step
    obtain ⟨tables, hfresh⟩ := htargets.fresh (p, target) (by simp)
    by_cases hfits : env.SelectFits t g p
    · obtain ⟨hdone, ⟨vs', hl, hnodup', hmem⟩, hsame⟩ := issue_select_of_fits htable ht hg hfresh
        (hvalid (p, target) (by simp)) hfits
      have hbase : Name.folded (env.schema.annotationTable e) ≠ Name.folded (tables.part e) := by
        have hpart := hapart (.graph .base) (.graph (.named target)) _ _ (by simp) rfl
          hfresh.resolves e e
        cases e <;> exact hpart
      obtain ⟨hsucceeds, hends⟩ := ih ((hsame _ (by simpa using hbase)).trans ht)
        ⟨tables, hfresh.resolves, hl⟩ hnodup' (htargets.tail hapart hfresh.resolves hsame)
        fun step hstep => hvalid step (List.mem_cons_of_mem _ hstep)
      refine ⟨and_congr (iff_of_true hdone hfits) hsucceeds, fun hall => ?_⟩
      obtain ⟨found, hholds, hnodup'', hfound⟩ := hends hall.2
      refine ⟨found, hholds, hnodup'', fun v => ?_⟩
      rw [hfound, hmem, List.forall_mem_cons, and_assoc]
    · have hfails : ¬ env.Succeeds s (Instruction.selections e g ((p, target) :: rest)) :=
        fun h => outcome_select_of_not_fits ht hfits h.1
      exact ⟨iff_of_false hfails fun h => hfits h.1, fun h => absurd h.1 hfits⟩

/-! ## A lookup and a chain -/

/-- Under the name of the column, a predicate is satisfied by the rows that satisfy it in a lookup. -/
theorem satisfies_onColumn_iff [RegexLibrary] {aliases : String → String}
    (hwildcard : (p.onColumn aliases).isWildcard = p.isWildcard) {v : Value} :
    env.Satisfies t (p.onColumn aliases) v ↔ ∃ r ∈ t.rows, r.get env.schema.idColumn = v ∧
      p.admitsIn env.schema t (Source.columnsOf aliases t.names p) r = true := by
  refine exists_congr fun r => and_congr_right fun _ => and_congr_right fun _ => ?_
  rw [Predicate.admitsIn_congr (Source.mem_columnsOf_iff hwildcard t.names)]
  rfl

/-- The columns that two keys of edges stand for are not called like the key for all columns. -/
def NoWildcardEnd (env : Environment) (e : Element) (p : Predicate) : Prop :=
  p.isWildcard = false → Source.aliasOf env.schema e p.key ≠ Predicate.wildcard

theorem NoWildcardEnd.isWildcard_onColumn (h : env.NoWildcardEnd e p) :
    (p.onColumn (Source.aliasOf env.schema e)).isWildcard = p.isWildcard := by
  cases hwildcard : p.isWildcard with
  | false => exact decide_eq_false (h hwildcard)
  | true =>
    have hkey : p.key = Predicate.wildcard := of_decide_eq_true hwildcard
    have halias : Source.aliasOf env.schema e Predicate.wildcard = Predicate.wildcard := by
      cases e <;> rfl
    exact decide_eq_true ((congrArg _ hkey).trans halias)

end Environment

/-! ## Runs over small worlds -/

namespace SmallWorld

open Environment

/-- Two edges with one child. -/
def twoParents : List (String × String × String) := [("e", "a", "b"), ("f", "a", "c")]

/-- Both name an end by a key of its own. -/
def endPredicates : List Predicate := [⟨childKey, .equal, "a"⟩, ⟨parentKey, .notEqual, "c"⟩]

/-- The same under the names of the columns, in another order. -/
def endSteps : List (Predicate × String) :=
  [(⟨"parenthash", .notEqual, "c"⟩, "dst"), (⟨"childhash", .equal, "a"⟩, "out")]

/-- So many columns that a search in all of them is nested as deeply as statements may be. -/
def mostKeys : List String := "k" :: manyKeys

theorem length_mostKeys : mostKeys.length = 997 := by simp [mostKeys, manyKeys]

theorem not_isReserved_mostKeys :
    ∀ key ∈ mostKeys, environment.schema.isReserved key = false :=
  List.forall_mem_cons.mpr ⟨by decide, not_isReserved_manyKeys⟩

/-- A vertex that has these columns. -/
def wideTable : Table := environment.schema.listing mostKeys ["a"]

def wideStore : Store := holding wideTable (edgeRows []) ([], []) ([], [])

/-- The id, asked for in all columns. -/
def idAnywhere : Predicate := ⟨Predicate.wildcard, .equal, "a"⟩

def idInColumn : Predicate := ⟨"hash", .equal, "a"⟩

def threeTimes : List Predicate := [idAnywhere, idInColumn, idInColumn]

def threeSteps : List (Predicate × String) :=
  [(idAnywhere, "src"), (idInColumn, "dst"), (idInColumn, "out")]

theorem wideStore_vertexTable :
    wideStore.database.find? (environment.schema.annotationTable .vertex) = some wideTable :=
  holding_vertexTable ..

theorem wideTable_isKeyed : environment.IsKeyed wideTable := by
  obtain ⟨t, ht, hkeeps, hids⟩ :=
    Schema.lists_listing mostKeys ["a"] idAffinity_eq wideStore_vertexTable
  obtain rfl : wideTable = t := Option.some.inj (wideStore_vertexTable.symm.trans ht)
  exact ⟨hkeeps, by rw [hids]; decide, by rw [hids]; decide⟩

theorem names_wideTable : wideTable.names = "hash" :: mostKeys := Schema.names_listing _ _ ["a"]

theorem columns_idInColumn : wideTable.names.filter (· = "hash") = ["hash"] := by
  have hout : "hash" ∉ mostKeys := fun hin => absurd (not_isReserved_mostKeys _ hin) (by decide)
  rw [names_wideTable, List.filter_cons_of_pos (by simp), List.filter_eq_nil_iff.mpr]
  intro key hkey
  simpa using ne_of_mem_of_not_mem hkey hout

/-- The columns of the first condition, and two more levels. -/
theorem not_lookupFits_threeTimes :
    ¬ Source.LookupFits environment.schema wideTable id threeTimes := by
  have hcolumn : Source.columnsOf id wideTable.names idInColumn = ["hash"] := columns_idInColumn
  have hlength : (Source.columnsOf id wideTable.names idAnywhere).length = 998 := by
    have hall : Source.columnsOf id wideTable.names idAnywhere =
      wideTable.names.mergeSort fun a b => decide (a ≤ b) := rfl
    rw [hall, List.length_mergeSort, names_wideTable, List.length_cons, length_mostKeys]
  have hsome : Source.columnsOf id wideTable.names idAnywhere ≠ [] :=
    fun hnone => by simp [hnone] at hlength
  have hdepth := Sql.le_anyDepth environment.schema hsome
  intro hfits
  have hjoined := hfits <| by
    simp [threeTimes, Predicate.IsHopeless, hcolumn, hsome]
  have hasked : Source.asked wideTable id threeTimes = threeTimes := by
    simp [Source.asked, threeTimes, hcolumn, hsome]
  rw [hasked] at hjoined
  simp only [threeTimes, List.map_cons, List.map_nil, Sql.joinedDepth, List.foldl_cons,
    List.foldl_nil, Sql.depthLimit] at hjoined
  omega

theorem chainFits_threeSteps : environment.ChainFits wideTable .base threeSteps := by
  have hcolumn (g : GraphRef) : environment.SelectFits wideTable g idInColumn := by
    intro _
    rw [show idInColumn.columnsIn wideTable.names = ["hash"] from columns_idInColumn]
    exact (Sql.selectDepth_le _ _ _).trans (by decide)
  refine ⟨fun _ => ?_, hcolumn _, hcolumn _, trivial⟩
  have hall : idAnywhere.columnsIn wideTable.names = environment.schema.idColumn :: mostKeys :=
    names_wideTable
  rw [hall, Sql.selectDepth, Sql.anyDepth_of_keys not_isReserved_mostKeys, length_mostKeys]
  decide

theorem satisfies_id {key : String}
    (hid : "hash" ∈ Predicate.columnsIn ⟨key, .equal, "a"⟩ wideTable.names) :
    environment.Satisfies wideTable ⟨key, .equal, "a"⟩ (.text "a") := by
  refine ⟨⟨[("hash", .text "a")]⟩, List.mem_cons_self, rfl, ?_⟩
  rw [Predicate.admitsIn, if_neg (by simpa using List.ne_nil_of_mem hid), Predicate.admitsRow]
  exact List.any_eq_true.mpr ⟨_, List.mem_map_of_mem hid, rfl⟩

theorem lookup_threeTimes_refused :
    (Source.tables environment.schema wideStore.database).lookup .vertex threeTimes =
      .error .statementFailed := by
  have hown : ∀ column ∈ environment.schema.ownColumns .vertex, wideTable.has column = true := by
    simpa [Schema.ownColumns] using wideTable_isKeyed.keeps.has
  rw [Source.lookup_tables (Database.tableWith_of_find? wideStore_vertexTable hown)]
  exact congrArg _ (Source.selectRows_of_not_fits not_lookupFits_threeTimes)

theorem threeSteps_targets : environment.Targets wideStore.database threeSteps := by
  refine ⟨fun step hstep => ?_, by decide⟩
  simp only [threeSteps, List.mem_cons, List.not_mem_nil, or_false] at hstep
  obtain rfl | rfl | rfl := hstep
  · exact ⟨_, holding_fresh_src ..⟩
  · exact ⟨_, holding_fresh_dst ..⟩
  · exact ⟨_, holding_fresh_out ..⟩

theorem threeSteps_find : environment.ChainFinds wideStore .vertex threeSteps (.text "a") := by
  have hvalid : ∀ step ∈ threeSteps, step.1.IsValid := by
    simp only [threeSteps, List.mem_cons, List.not_mem_nil, or_false]
    rintro step (rfl | rfl | rfl) <;> exact ⟨rfl, by simp [idAnywhere, idInColumn]⟩
  have hbase : environment.Holds wideStore.database .base .vertex [.text "a"] :=
    ⟨_, rfl, Schema.lists_listing mostKeys ["a"] idAffinity_eq wideStore_vertexTable⟩
  obtain ⟨hsucceeds, hends⟩ := chain_exact environment_apart wideTable_isKeyed wideStore_vertexTable
    hbase (by decide) threeSteps_targets hvalid
  obtain ⟨found, hholds, _, hmem⟩ := hends chainFits_threeSteps
  refine ⟨hsucceeds.mpr chainFits_threeSteps, found, hholds,
    (hmem _).mpr ⟨by simp, fun step hstep => ?_⟩⟩
  have hany : environment.Satisfies wideTable idAnywhere (.text "a") :=
    satisfies_id (show "hash" ∈ wideTable.names from names_wideTable ▸ List.mem_cons_self)
  have hcolumn : environment.Satisfies wideTable idInColumn (.text "a") :=
    satisfies_id (show "hash" ∈ wideTable.names.filter (· = "hash") by simp [columns_idInColumn])
  simp only [threeSteps, List.mem_cons, List.not_mem_nil, or_false] at hstep
  rcases hstep with rfl | rfl | rfl
  · exact hany
  all_goals exact hcolumn

/-! ### An end called like the key for all columns -/

/-- An environment whose edges keep their child under such a name, with a graph `out`. -/
def starred : Environment :=
  (Environment.mk { Schema.standard with childColumn := Predicate.wildcard }
    Environment.standardStem .empty .empty).addGraph "out"

/-- An edge from `a` to `b`. -/
def starredEdge : Table :=
  ⟨[⟨"hash", .text⟩, ⟨"*", .text⟩, ⟨"parenthash", .text⟩],
    [⟨[("hash", .text "e"), ("*", .text "a"), ("parenthash", .text "b")]⟩]⟩

def starredStore : Store :=
  { start with
    database := (((Database.empty.put "vertex" (starred.schema.listing [] [])).put "edge"
      starredEdge).put (starred.graphTables "out").vertices (starred.schema.listing [] [])).put
        (starred.graphTables "out").edges (starred.schema.listing [] []) }

/-- The child of no edge, asked for by the key of children. -/
def starredEnd : List Predicate := [⟨childKey, .equal, "b"⟩]

/-- The same under the name of the column. -/
def starredSteps : List (Predicate × String) := [(⟨"*", .equal, "b"⟩, "out")]

theorem starredEdge_isKeyed : starred.IsKeyed starredEdge := by
  refine ⟨⟨by decide, by decide, ?_⟩, by decide, by decide⟩
  unfold Affinity.Keeps
  decide

theorem starred_apart : starred.Apart := apart_of_pairwise (by decide)

theorem starredSteps_targets : starred.Targets starredStore.database starredSteps := by
  have hown : starred.OwnTables := by
    have hcreate : Environment.create starred.schema (some Environment.standardStem) =
      .ok ⟨starred.schema, Environment.standardStem, .empty, .empty⟩ := by decide
    exact (Environment.ownTables_of_create hcreate).addGraph
  have hfresh : starred.Fresh starredStore.database "out" (starred.graphTables "out") := by
    refine hown.fresh rfl (fun e => by cases e <;> rfl) fun e e' => ?_
    cases e <;> cases e' <;> decide
  exact ⟨by simpa [starredSteps] using ⟨_, hfresh⟩, by decide⟩

/-- The edge has `b` for its parent. -/
theorem starredSteps_find : starred.ChainFinds starredStore .edge starredSteps (.text "e") := by
  have ht : starredStore.database.find? (starred.schema.annotationTable .edge) = some starredEdge :=
    rfl
  have hbase : starred.Holds starredStore.database .base .edge [.text "e"] :=
    ⟨_, rfl, starredEdge, ht, starredEdge_isKeyed.keeps, rfl⟩
  have hcolumns : Predicate.columnsIn ⟨"*", .equal, "b"⟩ starredEdge.names =
    ["hash", "*", "parenthash"] := rfl
  have hfits : starred.ChainFits starredEdge .base starredSteps :=
    ⟨fun _ => by rw [hcolumns]; decide, trivial⟩
  obtain ⟨hsucceeds, hends⟩ := chain_exact starred_apart starredEdge_isKeyed ht hbase (by decide)
    starredSteps_targets (by simpa [starredSteps] using ⟨rfl, by simp⟩)
  obtain ⟨found, hholds, _, hmem⟩ := hends hfits
  refine ⟨hsucceeds.mpr hfits, found, hholds, (hmem _).mpr ⟨by simp, ?_⟩⟩
  simpa [starredSteps] using ⟨_, List.mem_cons_self, rfl, by decide⟩

end SmallWorld
end Provenance
