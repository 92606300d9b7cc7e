-- SUMMARY: Lookups by predicates in tables and in memory agree where the predicates are alike.
import Provenance.Proofs.LetterCase
import Provenance.Proofs.Engines

/-!
# Lookups in tables and in memory

A graph in memory may be kept in annotation tables as well, with a row for each element and nulls
for the annotations that it lacks. A list of predicates then selects the same elements here and
there, as far as each predicate is alike on them: tables match wildcards without regard to case and
order numbers like any other texts, and to lack an annotation is to differ from a value only where
no element has that annotation.
-/
namespace Provenance

/-! ## Predicates that are alike -/

/-- The order of two texts, numbers or not. -/
def Operator.orderedAsTexts (op : Operator) (actual operand : String) : Bool :=
  match op with
  | .greater => actual > operand
  | .greaterEqual => actual ≥ operand
  | .less => actual < operand
  | _ => actual ≤ operand

/-- Texts that are not both numbers are ordered as texts. -/
theorem Operator.ordered_eq_orderedAsTexts {actual operand : String}
    (h : Number.readFloat? actual = none ∨ Number.readFloat? operand = none) (op : Operator) :
    op.ordered actual operand = op.orderedAsTexts actual operand := by
  unfold ordered
  rcases h with h | h
  · rw [h]
    rfl
  · rw [h]
    cases Number.readFloat? actual <;> rfl

/-- Nothing is asked that tables and elements in memory have different rules for: no letter of a
wildcard pattern stands in the text in its other case, and neither has a null character; of two texts
to be ordered not both are numbers. -/
def Operator.IsAlike (op : Operator) (operand actual : String) : Prop :=
  match op with
  | .equal => True
  | .notEqual => True
  | .regex => True
  | .like => '\x00' ∉ operand.toList ∧ '\x00' ∉ actual.toList ∧
      Like.CaseKept operand.toList actual.toList
  | _ => Number.readFloat? actual = none ∨ Number.readFloat? operand = none

theorem Value.lt_text (s t : String) : (Value.text s).lt (.text t) = decide (s < t) := by
  rw [lt, le, ← decide_not, decide_eq_decide, String.not_le]

/-- In a column of texts a comparison that is alike comes out as it does in memory. -/
theorem Operator.admits_text {op : Operator} {operand actual : String}
    (h : op.IsAlike operand actual) (finder : Option (String → Bool)) :
    op.admits finder .blob operand (.text actual) = op.admitsText finder operand actual := by
  cases op with
  | equal => simp [admits, admitsText, Value.text?, Affinity.store, Value.canonical]
  | notEqual => simp [admits, admitsText, Value.text?, Affinity.store, Value.canonical]
  | regex => rfl
  | like => exact Like.folded_eq_exact h.1 h.2.1 h.2.2
  | greater => exact (Value.lt_text operand actual).trans (ordered_eq_orderedAsTexts h .greater).symm
  | greaterEqual => exact (ordered_eq_orderedAsTexts h .greaterEqual).symm
  | less => exact (Value.lt_text actual operand).trans (ordered_eq_orderedAsTexts h .less).symm
  | lessEqual => exact (ordered_eq_orderedAsTexts h .lessEqual).symm

namespace Predicate

/-- The predicate is alike on an element with the given annotations, where those of all elements
have columns: on its annotation, or because a missing one decides alike. -/
def IsAlike (p : Predicate) (columns : List String) (a : Annotations) : Prop :=
  match a.get? p.key with
  | some actual => p.operator.IsAlike p.value actual
  | none => p.operator = .notEqual → p.key ∉ columns

/-- What tables answer for an element with the given annotations, where those of all elements have
columns. -/
def admitsStored [RegexLibrary] (p : Predicate) (columns : List String) (a : Annotations) : Bool :=
  match a.get? p.key with
  | some actual => p.operator.admits p.finder? .blob p.value (.text actual)
  | none => decide (p.operator = .notEqual ∧ p.key ∉ columns)

theorem IsAlike.admitsStored_eq [RegexLibrary] {p : Predicate} {columns : List String}
    {a : Annotations} (h : p.IsAlike columns a) (hwildcard : p.key ≠ Predicate.wildcard) :
    p.admitsStored columns a = p.admitsValues p.finder? a := by
  rw [admitsValues, if_neg (by simp [isWildcard, hwildcard]), admitsStored]
  unfold IsAlike at h
  cases hget : a.get? p.key with
  | none =>
    rw [hget] at h
    simpa using h
  | some actual =>
    rw [hget] at h
    exact Operator.admits_text h _

/-- The predicate is about an annotation, and not about ids, endpoints, or all annotations. -/
structure IsOnAnnotation (p : Predicate) (schema : Schema) : Prop where
  wildcard : p.key ≠ Predicate.wildcard
  child : p.key ≠ childKey
  parent : p.key ≠ parentKey
  reserved : schema.isReserved p.key = false

theorem admitsValues_congr {p : Predicate} (hwildcard : p.key ≠ Predicate.wildcard)
    {finder : Option (String → Bool)} {a b : Annotations} (h : a.get? p.key = b.get? p.key) :
    p.admitsValues finder a = p.admitsValues finder b := by
  simp only [admitsValues, isWildcard, hwildcard, decide_false, Bool.false_eq_true, if_false, h]

/-! ## What lists of predicates select -/

theorem IsValid.filterElements [RegexLibrary] {p : Predicate} (hp : p.IsValid) {α : Type}
    (values : α → Annotations) (xs : List α) :
    p.filterElements values xs =
      .ok (xs.filter fun x => p.admitsValues p.finder? (values x)) := by
  simp [Predicate.filterElements, hp.pattern]

/-- The row satisfies the predicate; where there is no column, every row differs from the value. -/
def selects [RegexLibrary] (p : Predicate) (schema : Schema) (t : Table) (r : Row) : Bool :=
  if p.key ∈ t.names then
    p.operator.admits p.finder? (schema.operandForm t p.key) p.value (schema.comparedCell r p.key)
  else p.operator = .notEqual

end Predicate

/-- The question has an answer with the property, unless it asks for too many predicates at once. -/
def Sql.Answers {α : Type} (ps : List Predicate) (answer : Except Error α) (property : α → Prop) :
    Prop :=
  (∃ found, answer = .ok found ∧ property found) ∨
    (Sql.depthLimit ≤ ps.length ∧ answer = .error .statementFailed)

theorem Sql.Answers.mono {α : Type} {ps : List Predicate} {answer : Except Error α}
    {property property' : α → Prop} (h : Answers ps answer property)
    (himp : ∀ found, property found → property' found) : Answers ps answer property' :=
  h.imp_left fun ⟨found, hanswer, hproperty⟩ => ⟨found, hanswer, himp found hproperty⟩

/-- Few predicates are answered. -/
theorem Sql.Answers.exists_found {α : Type} {ps : List Predicate} {answer : Except Error α}
    {property : α → Prop} (h : Answers ps answer property) (hlength : ps.length < depthLimit) :
    ∃ found, answer = .ok found ∧ property found :=
  h.resolve_right fun hfails => absurd hfails.1 (Nat.not_le.mpr hlength)

namespace Source

variable {schema : Schema} {t : Table} {aliases : String → String} {ps : List Predicate}
  {p : Predicate}

theorem columnsOf_eq (hnames : t.names.Nodup) (halias : aliases p.key = p.key)
    (hp : p.IsOnAnnotation schema) :
    columnsOf aliases t.names p = if p.key ∈ t.names then [p.key] else [] := by
  rw [columnsOf, if_neg (by simp [Predicate.isWildcard, hp.wildcard]), halias, List.filter_eq,
    hnames.count]
  split <;> rfl

/-- A comparison of one annotation is two levels deep. -/
theorem anyDepth_columnsOf (hnames : t.names.Nodup) (halias : aliases p.key = p.key)
    (hp : p.IsOnAnnotation schema) :
    Sql.anyDepth schema (columnsOf aliases t.names p) ≤ 2 := by
  rw [columnsOf_eq hnames halias hp]
  split
  · simp [Sql.anyDepth, Sql.joinedDepth, Sql.referenceDepth, hp.reserved]
  · simp [Sql.anyDepth, Sql.joinedDepth]

theorem admitsIn_columnsOf [RegexLibrary] (hnames : t.names.Nodup) (halias : aliases p.key = p.key)
    (hp : p.IsOnAnnotation schema) (r : Row) :
    p.admitsIn schema t (columnsOf aliases t.names p) r = p.selects schema t r := by
  rw [columnsOf_eq hnames halias hp]
  by_cases hkey : p.key ∈ t.names
  · simp [Predicate.admitsIn, Predicate.selects, Predicate.admitsRow, hkey]
  · simp [Predicate.admitsIn, Predicate.selects, hkey]

/-- Predicates about annotations select the rows that satisfy them all. -/
theorem selectRows_answers [RegexLibrary] (hnames : t.names.Nodup)
    (haliases : ∀ p ∈ ps, aliases p.key = p.key)
    (hps : ∀ p ∈ ps, p.IsOnAnnotation schema ∧ p.IsValid) :
    Sql.Answers ps (selectRows schema t aliases ps)
      (· = t.rows.filter fun r => ps.all fun p => p.selects schema t r) := by
  by_cases hfits : LookupFits schema t aliases ps
  · refine .inl ⟨_, selectRows_of_fits (fun p hp => (hps p hp).2) hfits, ?_⟩
    refine List.filter_congr fun r _ => ?_
    rw [Bool.eq_iff_iff, List.all_eq_true, List.all_eq_true]
    exact forall₂_congr fun p hp => by rw [admitsIn_columnsOf hnames (haliases p hp) (hps p hp).1]
  · refine .inr ⟨?_, selectRows_of_not_fits hfits⟩
    by_contra hshort
    refine hfits fun _ => (Sql.joinedDepth_le (c := 1) fun d hd => ?_).trans ?_
    · obtain ⟨p, hp, rfl⟩ := List.mem_map.mp hd
      have hin := (List.mem_filter.mp hp).1
      exact anyDepth_columnsOf hnames (haliases p hin) (hps p hin).1
    · have hasked : (asked t aliases ps).length ≤ ps.length := List.length_filter_le _ _
      rw [List.length_map]
      omega

end Source

/-! ## Graphs kept in tables -/

/-- The row is that of an element: it has the id, the annotations, and nulls for those that are
missing. -/
structure Schema.IsRowOf (schema : Schema) (t : Table) (id : String) (a : Annotations) (r : Row) :
    Prop where
  id : r.get schema.idColumn = .text id
  cells : ∀ key ∈ t.names, schema.isReserved key = false →
    r.get key = ((a.get? key).map Value.text).getD .null

/-- The rows of the table are those of the elements, under columns of texts for all their
annotations. -/
structure Schema.Tabulates {α : Type} (schema : Schema) (t : Table) (id : α → String)
    (annotations : α → Annotations) (xs : List α) : Prop where
  names : t.names.Nodup
  columns : ∀ x ∈ xs, ∀ key, (annotations x).contains key = true → key ∈ t.names
  texts : ∀ key ∈ t.names, schema.isReserved key = false → (t.affinity key).isNumeric = false
  elements : ∀ r ∈ t.rows, ∃ x ∈ xs, schema.IsRowOf t (id x) (annotations x) r
  rows : ∀ x ∈ xs, ∃ r ∈ t.rows, schema.IsRowOf t (id x) (annotations x) r

/-- The annotation tables keep the elements of a graph. -/
structure Schema.Keeps (schema : Schema) (db : Database) (g : MemoryGraph)
    (vertices edges : Table) : Prop where
  vertexTable : db.tableWith schema.vertexTable [schema.idColumn] = .ok vertices
  edgeTable : db.tableWith schema.edgeTable schema.reserved = .ok edges
  vertices : schema.Tabulates vertices Vertex.id Vertex.annotations g.vertices
  edges : schema.Tabulates edges Edge.id Edge.annotations g.edges

namespace Schema.Tabulates

variable {α : Type} {schema : Schema} {t : Table} {id : α → String} {annotations : α → Annotations}
  {xs : List α} {p : Predicate} {ps : List Predicate}

/-- The row of an element has what the answer of tables depends on. -/
theorem selects_eq [RegexLibrary] (h : schema.Tabulates t id annotations xs) {x : α} (hx : x ∈ xs)
    {r : Row} (hr : schema.IsRowOf t (id x) (annotations x) r) (hp : p.IsOnAnnotation schema) :
    p.selects schema t r = p.admitsStored t.names (annotations x) := by
  by_cases hkey : p.key ∈ t.names
  · have hform : schema.operandForm t p.key = .blob := by
      simp [Schema.operandForm, hp.reserved, Affinity.operand, h.texts _ hkey hp.reserved]
    have hcell : schema.comparedCell r p.key =
        (((annotations x).get? p.key).map Value.text).getD .null := by
      simp [Schema.comparedCell, hp.reserved, hr.cells _ hkey hp.reserved]
    rw [Predicate.selects, if_pos hkey, hform, hcell, Predicate.admitsStored]
    cases (annotations x).get? p.key with
    | none => simp [Operator.admits, Value.text?, hkey]
    | some actual => rfl
  · have hnone : (annotations x).get? p.key = none := by
      by_contra hsome
      refine hkey (h.columns x hx p.key ?_)
      simpa [Annotations.contains, Option.isSome_iff_ne_none] using hsome
    simp [Predicate.selects, Predicate.admitsStored, hkey, hnone]

/-- The rows that predicates select are those of the elements for which tables say so. -/
theorem selectRows_answers [RegexLibrary] (h : schema.Tabulates t id annotations xs)
    (hps : ∀ p ∈ ps, p.IsOnAnnotation schema ∧ p.IsValid) {aliases : String → String}
    (haliases : ∀ p ∈ ps, aliases p.key = p.key) (ofRow : Row → α)
    (hofRow : ∀ x r, schema.IsRowOf t (id x) (annotations x) r → id (ofRow r) = id x) :
    Sql.Answers ps ((Source.selectRows schema t aliases ps).map (·.map ofRow)) fun found =>
      ∀ u, u ∈ found.map id ↔
        ∃ x ∈ xs, id x = u ∧ ∀ p ∈ ps, p.admitsStored t.names (annotations x) = true := by
  have hsame {x : α} (hx : x ∈ xs) {r : Row} (hr : schema.IsRowOf t (id x) (annotations x) r) :
      (ps.all fun p => p.selects schema t r) = true ↔
        ∀ p ∈ ps, p.admitsStored t.names (annotations x) = true := by
    rw [List.all_eq_true]
    exact forall₂_congr fun p hp => by rw [h.selects_eq hx hr (hps p hp).1]
  rcases Source.selectRows_answers h.names haliases hps with ⟨rows, hrows, rfl⟩ | ⟨hlong, hfails⟩
  · refine .inl ⟨_, by rw [hrows]; rfl, fun u => ?_⟩
    simp only [List.mem_map, List.mem_filter, exists_exists_and_eq_and]
    constructor
    · rintro ⟨r, ⟨hr, hselects⟩, rfl⟩
      obtain ⟨x, hx, hrow⟩ := h.elements r hr
      exact ⟨x, hx, (hofRow x r hrow).symm, (hsame hx hrow).mp hselects⟩
    · rintro ⟨x, hx, rfl, hadmits⟩
      obtain ⟨r, hr, hrow⟩ := h.rows x hx
      exact ⟨r, ⟨hr, (hsame hx hrow).mpr hadmits⟩, hofRow x r hrow⟩
  · exact .inr ⟨hlong, by rw [hfails]; rfl⟩

end Schema.Tabulates

/-- The elements that predicates select in memory. -/
theorem Predicate.exists_elements [RegexLibrary] {α : Type} (xs : List α) (id : α → String)
    {values annotations : α → Annotations} {schema : Schema} {ps : List Predicate}
    (hps : ∀ p ∈ ps, p.IsOnAnnotation schema ∧ p.IsValid)
    (hvalues : ∀ p ∈ ps, ∀ x, (values x).get? p.key = (annotations x).get? p.key) :
    ∃ found, ps.foldlM (fun xs p => p.filterElements values xs) xs = .ok found ∧
      ∀ u, u ∈ found.map id ↔
        ∃ x ∈ xs, id x = u ∧ ∀ p ∈ ps, p.admitsValues p.finder? (annotations x) = true := by
  have hstep (p : Predicate) (hp : p ∈ ps) (xs : List α) : p.filterElements values xs =
      .ok (xs.filter fun x => p.admitsValues p.finder? (annotations x)) := by
    rw [(hps p hp).2.filterElements]
    refine congrArg Except.ok (List.filter_congr fun x _ => ?_)
    exact admitsValues_congr (hps p hp).1.wildcard (hvalues p hp x)
  refine ⟨_, foldlM_filter hstep, fun u => ?_⟩
  simp only [List.mem_map, List.mem_filter, List.all_eq_true, and_assoc]
  exact exists_congr fun x => and_congr_right fun _ => and_comm

/-! ## Agreement -/

theorem Edge.get?_values_of_ne (e : Edge) {key : String} (hchild : key ≠ childKey)
    (hparent : key ≠ parentKey) : e.values.get? key = e.annotations.get? key := by
  simp [values, withEndpoints, Annotations.get?_insert, hchild, hparent]

/-- The two lists have the same ids, but for those of elements that are not alike. -/
def AgreeWhere {α : Type} (id : α → String) (xs : List α) (alike : α → Prop)
    (found found' : List α) : Prop :=
  ∀ u, (∀ x ∈ xs, id x = u → alike x) → (u ∈ found.map id ↔ u ∈ found'.map id)

theorem agreeWhere_of_isAlike [RegexLibrary] {α : Type} {schema : Schema} {id : α → String}
    {xs found found' : List α} {annotations : α → Annotations} {columns : List String}
    {ps : List Predicate}
    (hps : ∀ p ∈ ps, p.IsOnAnnotation schema ∧ p.IsValid)
    (hfound : ∀ u, u ∈ found.map id ↔
      ∃ x ∈ xs, id x = u ∧ ∀ p ∈ ps, p.admitsStored columns (annotations x) = true)
    (hfound' : ∀ u, u ∈ found'.map id ↔
      ∃ x ∈ xs, id x = u ∧ ∀ p ∈ ps, p.admitsValues p.finder? (annotations x) = true) :
    AgreeWhere id xs (fun x => ∀ p ∈ ps, p.IsAlike columns (annotations x)) found found' := by
  intro u halike
  rw [hfound, hfound']
  refine exists_congr fun x => and_congr_right fun hx => and_congr_right fun hu => ?_
  refine forall₂_congr fun p hp => ?_
  rw [(halike x hx hu p hp).admitsStored_eq (hps p hp).1.wildcard]

namespace Schema.Keeps

variable {schema : Schema} {db : Database} {g : MemoryGraph} {vertices edges : Table}
  {ps : List Predicate}

theorem vertices_answers [RegexLibrary] (h : schema.Keeps db g vertices edges)
    (hps : ∀ p ∈ ps, p.IsOnAnnotation schema ∧ p.IsValid) :
    Sql.Answers ps ((Source.tables schema db).vertices ps) fun found =>
      ∀ u, u ∈ found.map Vertex.id ↔ ∃ v ∈ g.vertices, v.id = u ∧
        ∀ p ∈ ps, p.admitsStored vertices.names v.annotations = true := by
  have hanswers := h.vertices.selectRows_answers hps (fun _ _ => id_eq _)
    (schema.vertexOf vertices) fun x r hr => by simp [Schema.vertexOf, hr.id]
  have heq : (Source.tables schema db).vertices ps =
      (Source.selectRows schema vertices id ps).map (·.map (schema.vertexOf vertices)) := by
    rw [Source.vertices, h.vertexTable]
    rfl
  rwa [heq]

theorem edges_answers [RegexLibrary] (h : schema.Keeps db g vertices edges)
    (hps : ∀ p ∈ ps, p.IsOnAnnotation schema ∧ p.IsValid) :
    Sql.Answers ps ((Source.tables schema db).edges ps) fun found =>
      ∀ u, u ∈ found.map Edge.id ↔ ∃ e ∈ g.edges, e.id = u ∧
        ∀ p ∈ ps, p.admitsStored edges.names e.annotations = true := by
  have halias (p : Predicate) (hp : p ∈ ps) : Source.edgeAlias schema p.key = p.key := by
    simp [Source.edgeAlias, (hps p hp).1.child, (hps p hp).1.parent]
  have hanswers := h.edges.selectRows_answers hps halias (schema.edgeOf edges)
    fun x r hr => by simp [Schema.edgeOf, hr.id]
  have heq : (Source.tables schema db).edges ps =
      (Source.selectRows schema edges (Source.edgeAlias schema) ps).map
        (·.map (schema.edgeOf edges)) := by
    rw [Source.edges, h.edgeTable]
    rfl
  rwa [heq]

end Schema.Keeps

/-! ## Loaded graphs -/

/-- The annotations as cells. -/
def Annotations.cells (a : Annotations) : List (String × Value) :=
  a.entries.map fun entry => (entry.1, .text entry.2)

/-- The elements of the graph as they are loaded into tables. -/
def MemoryGraph.toWorld (g : MemoryGraph) : World :=
  ⟨g.vertices.map fun v => ⟨.text v.id, v.annotations.cells⟩,
    g.edges.map fun e => ⟨.text e.id, .text e.child, .text e.parent, e.annotations.cells⟩, [], []⟩

namespace Annotations

theorem lookup_cells (a : Annotations) (key : String) :
    a.cells.lookup key = (a.get? key).map .text := by
  obtain ⟨entries⟩ := a
  simp only [cells, get?]
  induction entries with
  | nil => rfl
  | cons entry entries ih =>
    obtain ⟨key', text⟩ := entry
    by_cases hkey : key = key'
    · simp [hkey]
    · simpa [List.lookup_cons, beq_false_of_ne hkey] using ih

/-- The keys of an element are among those of its table. -/
theorem mem_keysOf {a : Annotations} {annotations : List (List (String × Value))}
    (ha : a.cells ∈ annotations) {key : String} (hkey : a.contains key = true)
    (asked : List String) : key ∈ World.keysOf asked annotations := by
  obtain ⟨text, htext⟩ := Option.isSome_iff_exists.mp hkey
  obtain ⟨_, _, hentries, _⟩ := List.lookup_eq_some_iff.mp htext
  have hcell : (key, Value.text text) ∈ annotations.flatten :=
    List.mem_flatten.mpr ⟨_, ha, List.mem_map.mpr ⟨(key, text), by simp [hentries], rfl⟩⟩
  rw [World.keysOf, List.mem_mergeSort, List.mem_eraseDups]
  exact List.mem_append_right _ (List.mem_map_of_mem (f := (·.1)) hcell)

end Annotations

namespace World

variable {schema : Schema} {g : MemoryGraph} {reserved keys : List String}

/-- Behind the reserved columns each key has its own cell. -/
theorem lookup_zip_keys {ids : List Value} (hids : ids.length = reserved.length) {key : String}
    (hreserved : key ∉ reserved) (hkey : key ∈ keys) (cell : String → Value) :
    ((reserved ++ keys).zip (ids ++ keys.map cell)).lookup key = some (cell key) := by
  have hnone : (reserved.zip ids).lookup key = none := by
    rw [List.lookup_eq_none_iff]
    intro entry hentry
    have hne : key ≠ entry.1 := fun heq => hreserved (heq ▸ (List.of_mem_zip hentry).1)
    simpa using hne
  rw [List.zip_append hids.symm, List.lookup_append, hnone, Option.none_or,
    ← List.map_prod_left_eq_zip, List.lookup_graph cell hkey]

/-- A filled table tabulates the elements whose rows it has. -/
theorem tabulates_filled {α : Type} (htext : schema.idAffinity = .text) {id : α → String}
    {annotations : α → Annotations} {xs : List α} {others : List String}
    (hothers : ∀ column ∈ others, schema.isReserved column = true)
    (hkeys : ∀ x ∈ xs, ∀ key, (annotations x).contains key = true → key ∈ keys)
    {row : α → List Value} (rest : α → List Value) (hrest : ∀ x, (rest x).length = others.length)
    (hrow : ∀ x, row x = .text (id x) :: rest x ++ cellsOf keys (annotations x).cells) :
    schema.Tabulates (filled schema (schema.idColumn :: others) keys (xs.map row)) id annotations
      xs := by
  let reserved := schema.idColumn :: others
  let t := filled schema reserved keys (xs.map row)
  have hnames {key : String} : key ∈ t.names ↔ key ∈ reserved ++ keys := names_columnsOf
  have hisRow (x : α) : schema.IsRowOf t (id x) (annotations x)
      ((⟨columnsOf schema reserved keys, []⟩ : Table).row ((reserved ++ keys).zip (row x))) := by
    refine ⟨?_, fun key hkey hreserved => ?_⟩
    · rw [get_filled keys htext (by simp [reserved]), hrow]
      simp [reserved, Affinity.store, Value.asText]
    · have hother : key ∉ reserved := by
        intro hin
        rcases List.mem_cons.mp hin with rfl | hin
        · simp [Schema.isReserved, Schema.reserved] at hreserved
        · simp [hothers key hin] at hreserved
      have hin : key ∈ keys := (List.mem_append.mp (hnames.mp hkey)).resolve_left hother
      rw [get_filled keys htext (hnames.mp hkey), hrow, cellsOf,
        lookup_zip_keys (by simp [reserved, hrest]) hother hin, Annotations.lookup_cells]
      cases (annotations x).get? key <;> rfl
  have hrows : t.rows = xs.map fun x =>
      (⟨columnsOf schema reserved keys, []⟩ : Table).row ((reserved ++ keys).zip (row x)) := by
    simp [t, filled, Table.append, Function.comp_def]
  refine ⟨Column.nodup_foldl_declare (by simp), fun x hx key hkey => ?_, fun key hkey _ => ?_,
    fun r hr => ?_, fun x hx => ?_⟩
  · exact hnames.mpr (List.mem_append_right _ (hkeys x hx key hkey))
  · rw [(keepsIds_filled htext (hnames.mp hkey)).affinity, htext]
    rfl
  · rw [hrows] at hr
    obtain ⟨x, hx, rfl⟩ := List.mem_map.mp hr
    exact ⟨x, hx, hisRow x⟩
  · exact ⟨_, hrows ▸ List.mem_map_of_mem hx, hisRow x⟩

/-- Once a graph is loaded the tables keep its elements. -/
theorem wp_load_keeps {s : Store} (hload : g.toWorld.CanLoad schema)
    (htext : schema.idAffinity = .text) :
    (g.toWorld.load schema).wp
      (fun _ s' => ∃ vertices edges, schema.Keeps s'.database g vertices edges) s := by
  refine (load_rows hload).mono fun _ s' h => ?_
  obtain ⟨hv, he, _⟩ := h
  let vertexKeys := keysOf [] (g.vertices.map fun v => v.annotations.cells)
  let edgeKeys := keysOf [] (g.edges.map fun e => e.annotations.cells)
  have hvertices : g.toWorld.vertexRows schema = filled schema [schema.idColumn] vertexKeys
      (g.vertices.map fun v => .text v.id :: cellsOf vertexKeys v.annotations.cells) := by
    simp [vertexRows, MemoryGraph.toWorld, vertexKeys, Function.comp_def]
  have hedges : g.toWorld.edgeRows schema = filled schema schema.reserved edgeKeys
      (g.edges.map fun e => [.text e.id, .text e.child, .text e.parent] ++
        cellsOf edgeKeys e.annotations.cells) := by
    simp [edgeRows, MemoryGraph.toWorld, edgeKeys, Function.comp_def]
  rw [hvertices] at hv
  rw [hedges] at he
  refine ⟨_, _, ⟨Database.tableWith_of_find? hv fun column hcolumn => ?_,
    Database.tableWith_of_find? he fun column hcolumn => ?_, ?_, ?_⟩⟩
  · exact (keepsIds_filled htext (List.mem_append_left _ hcolumn)).has
  · exact (keepsIds_filled htext (List.mem_append_left _ hcolumn)).has
  · refine tabulates_filled htext (by simp) (fun v hv key hkey => ?_) (fun _ => []) (by simp)
      fun v => rfl
    have hcells : v.annotations.cells ∈ g.vertices.map fun v => v.annotations.cells :=
      List.mem_map.mpr ⟨v, hv, rfl⟩
    exact Annotations.mem_keysOf hcells hkey []
  · refine tabulates_filled htext (by simp [Schema.isReserved, Schema.reserved])
      (fun e he key hkey => ?_) (fun e => [.text e.child, .text e.parent]) (by simp)
      fun e => rfl
    have hcells : e.annotations.cells ∈ g.edges.map fun e => e.annotations.cells :=
      List.mem_map.mpr ⟨e, he, rfl⟩
    exact Annotations.mem_keysOf hcells hkey []

end World

/-! ## A small graph -/

/-- A process and a file that it reads. Only the process is annotated with its name. -/
def MemoryGraph.reading : MemoryGraph :=
  { MemoryGraph.empty none with
    vertices := [⟨"p", ⟨[("name", "cat"), ("pid", "10")]⟩⟩, ⟨"f", .empty⟩]
    edges := [⟨"e", "p", "f", ⟨[("name", "read")]⟩⟩] }

theorem MemoryGraph.canLoad_reading : MemoryGraph.reading.toWorld.CanLoad .standard := by
  have hvertices : World.keysOf reading.toWorld.vertexKeys
      (reading.toWorld.vertices.map (·.annotations)) = ["name", "pid"] :=
    World.keysOf_eq (by decide) (by decide)
  have hedges : World.keysOf reading.toWorld.edgeKeys
      (reading.toWorld.edges.map (·.annotations)) = ["name"] :=
    World.keysOf_eq (by decide) (by decide)
  refine ⟨by decide, by decide, by decide, ?_, ?_⟩
  · rw [hvertices]
    exact ⟨by decide, by decide, by decide, by decide⟩
  · rw [hedges]
    exact ⟨by decide, by decide, by decide, by decide⟩

/-- Names that begin with a letter, and that come after another name. -/
def Predicate.named : List Predicate := [⟨"name", .like, "c%"⟩, ⟨"name", .greater, "bat"⟩]

theorem Predicate.named_isAlike {a : Annotations}
    (ha : a.get? "name" ∈ [none, some "cat", some "read"]) (columns : List String) :
    ∀ p ∈ named, p.IsAlike columns a := by
  have hlike : ∀ name ∈ ["cat", "read"], Operator.like.IsAlike "c%" name := by
    intro name hname
    rcases List.mem_pair.mp hname with rfl | rfl <;>
      exact ⟨by decide, by decide, by simp [Like.CaseKept]⟩
  have hgreater (name : String) : Operator.greater.IsAlike "bat" name := .inr (by decide)
  simp only [List.mem_cons, List.not_mem_nil, or_false] at ha
  intro p hp
  rcases List.mem_pair.mp hp with rfl | rfl <;> rcases ha with ha | ha | ha <;>
    simp [IsAlike, ha, hgreater, hlike]

/-- Processes with a greater number, which need not come later as a text. -/
def Predicate.numbered : Predicate := ⟨"pid", .greater, "9"⟩

end Provenance
