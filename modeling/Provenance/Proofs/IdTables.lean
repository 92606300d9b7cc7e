-- SUMMARY: Statements on tables of ids: what they read, and what they leave.
import Provenance.Proofs.Program

/-!
# Tables of ids

What statements read from tables of ids and write to them. A table keeps ids when it has the column
of ids under their affinity and holds them in the form in which that affinity keeps values; ids of
such tables are compared as they are. `Lists` says which ids a table lists row by row, and
`ListsOnce` that it lists each id of a set once.
-/
namespace Provenance

/-! ## Comparison under one affinity -/

@[simp] theorem Affinity.meet_self (a : Affinity) : a.meet a = .blob := by simp [Affinity.meet]

@[simp] theorem Affinity.store_blob (v : Value) : Affinity.blob.store v = v := by cases v <;> rfl

@[simp] theorem Affinity.map_store_blob (vs : List Value) : vs.map Affinity.blob.store = vs := by
  simp [List.map_congr_left (g := id) fun v _ => Affinity.store_blob v]

/-- The values are in the form in which a column of the affinity keeps them. -/
def Affinity.Keeps (a : Affinity) (vs : List Value) : Prop := ∀ v ∈ vs, a.store v = v

namespace Cells

theorem values_within {c d : Cells} (h : c.affinity = d.affinity) :
    (c.within d).values = c.values.filter (·.memberOf d.values) := by
  simp [within, h]

theorem values_without {c d : Cells} (h : c.affinity = d.affinity) :
    (c.without d).values = c.values.filter (·.absentFrom d.values) := by
  simp [without, h]

theorem ofValues_of_keeps {a : Affinity} {vs : List Value} (h : a.Keeps vs) :
    ofValues a vs = ⟨a, vs⟩ := by
  simp only [ofValues, List.map_congr_left h, List.map_id']

end Cells

/-- Cells of columns under one affinity are compared as they are. -/
theorem Table.rowsWithin_eq {t : Table} {name : String} {c : Cells}
    (h : t.affinity name = c.affinity) :
    t.rowsWithin name c = t.rows.filter fun r => (r.get name).memberOf c.values := by
  simp [rowsWithin, h]

/-- A row with a single cell holds it in the form in which the column keeps it. -/
theorem Table.get_row_self {t : Table} {column : String} (h : t.has column = true) (v : Value) :
    (t.row [(column, v)]).get column = (t.affinity column).store v := by
  have hmem : column ∈ t.columns.map (·.name) := by simpa [Table.has, Table.names] using h
  simp [Table.row, Row.get_ofCells hmem, Table.affinity]

/-! ## Databases that differ in a few tables -/

theorem Database.tableWith_of_find? {db : Database} {name : String} {columns : List String}
    {t : Table} (h : db.find? name = some t) (hcolumns : ∀ column ∈ columns, t.has column = true) :
    db.tableWith name columns = .ok t := by
  simpa [tableWith, table, h] using hcolumns

/-- The tables of all other names are the same. -/
def Database.SameBut (names : List String) (db db' : Database) : Prop :=
  ∀ other, (∀ name ∈ names, Name.folded other ≠ Name.folded name) → db'.find? other = db.find? other

namespace Database.SameBut

variable {names names' : List String} {db db' db'' : Database}

theorem refl (names : List String) (db : Database) : SameBut names db db := fun _ _ => rfl

theorem trans (h : SameBut names db db') (h' : SameBut names db' db'') : SameBut names db db'' :=
  fun other ho => (h' other ho).trans (h other ho)

theorem mono (hn : names ⊆ names') (h : SameBut names db db') : SameBut names' db db' :=
  fun other ho => h other fun name hm => ho name (hn hm)

theorem put (db : Database) (name : String) (t : Table) : SameBut [name] db (db.put name t) := by
  intro other ho
  rw [find?_put, if_neg (ho name (by simp))]

end Database.SameBut

/-! ## What a table lists -/

namespace Schema

structure KeepsIds (schema : Schema) (t : Table) (column : String) : Prop where
  has : t.has column = true
  affinity : t.affinity column = schema.idAffinity
  stored : schema.idAffinity.Keeps (t.values column)

theorem KeepsIds.get_row {schema : Schema} {t : Table} (h : schema.KeepsIds t schema.idColumn)
    (v : Value) :
    (t.row [(schema.idColumn, v)]).get schema.idColumn = schema.idAffinity.store v := by
  rw [Table.get_row_self h.has, h.affinity]

/-- New rows hold the new ids as they are. -/
theorem KeepsIds.values_append {schema : Schema} {t : Table} {new : List Value}
    (h : schema.KeepsIds t schema.idColumn) (hnew : schema.idAffinity.Keeps new) :
    (t.append (t.column schema.idColumn new)).values schema.idColumn =
      t.values schema.idColumn ++ new := by
  simp only [Table.values, Table.append, Table.column, List.map_append, List.map_map,
    Function.comp_def, h.get_row, List.map_congr_left hnew, List.map_id']

/-- The table is there, keeps ids, and lists these, a row each. -/
def Lists (schema : Schema) (db : Database) (table : String) (vs : List Value) : Prop :=
  ∃ t, db.find? table = some t ∧ schema.KeepsIds t schema.idColumn ∧ t.values schema.idColumn = vs

/-- The table is there, keeps ids, and lists each id of a set once. -/
def ListsOnce (schema : Schema) (db : Database) (table : String) (p : Value → Prop) : Prop :=
  ∃ vs, schema.Lists db table vs ∧ vs.Nodup ∧ ∀ v, v ∈ vs ↔ p v

variable {schema : Schema} {db db' : Database} {table : String} {vs new : List Value}
  {p q : Value → Prop}

namespace Lists

theorem ids (h : schema.Lists db table vs) :
    schema.ids db table = .ok ⟨schema.idAffinity, vs⟩ := by
  obtain ⟨t, ht, hk, rfl⟩ := h
  simp [Schema.ids, Database.cells, Database.tableWith, Database.table, ht, hk.has, hk.affinity,
    Table.cells]

theorem keeps (h : schema.Lists db table vs) : schema.idAffinity.Keeps vs := by
  obtain ⟨_, _, hk, rfl⟩ := h
  exact hk.stored

theorem unique {vs' : List Value} (h : schema.Lists db table vs) (h' : schema.Lists db table vs') :
    vs = vs' := by
  obtain ⟨t, ht, _, rfl⟩ := h
  obtain ⟨t', ht', _, rfl⟩ := h'
  obtain rfl : t = t' := by simpa [ht] using ht'
  rfl

/-- A table may be spelled in another way. -/
theorem of_folded {table' : String} (h : schema.Lists db table vs)
    (hn : Name.folded table = Name.folded table') : schema.Lists db table' vs := by
  obtain ⟨t, ht, hk⟩ := h
  refine ⟨t, ?_, hk⟩
  rw [← ht, Database.find?, Database.find?, hn]

theorem of_same {names : List String} (h : schema.Lists db table vs)
    (hs : Database.SameBut names db db')
    (ho : ∀ name ∈ names, Name.folded table ≠ Name.folded name) : schema.Lists db' table vs := by
  obtain ⟨t, ht, hk⟩ := h
  exact ⟨t, (hs table ho).trans ht, hk⟩

/-- New rows list new ids. -/
theorem insertColumn (h : schema.Lists db table vs) (hnew : schema.idAffinity.Keeps new) :
    ∃ db', db.insertColumn table schema.idColumn new = .ok db' ∧
      schema.Lists db' table (vs ++ new) ∧ Database.SameBut [table] db db' := by
  obtain ⟨t, ht, hk, rfl⟩ := h
  let t' := t.append (t.column schema.idColumn new)
  have hvalues := hk.values_append hnew
  refine ⟨db.put table t', ?_, ⟨t', ?_, ⟨hk.has, hk.affinity, ?_⟩, hvalues⟩, .put db table t'⟩
  · simp [Database.insertColumn, Database.tableWith, Database.table, ht, hk.has, t']
  · rw [Database.find?_put, if_pos rfl]
  · intro v hv
    rw [hvalues, List.mem_append] at hv
    obtain hv | hv := hv
    · exact hk.stored v hv
    · exact hnew v hv

end Lists

namespace ListsOnce

theorem of_same {names : List String} (h : schema.ListsOnce db table p)
    (hs : Database.SameBut names db db')
    (ho : ∀ name ∈ names, Name.folded table ≠ Name.folded name) : schema.ListsOnce db' table p := by
  obtain ⟨vs, hl, h⟩ := h
  exact ⟨vs, hl.of_same hs ho, h⟩

theorem congr (h : schema.ListsOnce db table p) (hpq : ∀ v, p v ↔ q v) :
    schema.ListsOnce db table q := by
  obtain ⟨vs, hl, hn, hp⟩ := h
  exact ⟨vs, hl, hn, fun v => (hp v).trans (hpq v)⟩

theorem unique (h : schema.ListsOnce db table p) (h' : schema.ListsOnce db table q) (v : Value) :
    p v ↔ q v := by
  obtain ⟨vs, hl, _, hp⟩ := h
  obtain ⟨vs', hl', _, hq⟩ := h'
  obtain rfl := hl.unique hl'
  exact (hp v).symm.trans (hq v)

theorem lists_nil (h : schema.ListsOnce db table p) (hp : ∀ v, ¬ p v) :
    schema.Lists db table [] := by
  obtain ⟨vs, hl, _, hvs⟩ := h
  obtain rfl : vs = [] := List.eq_nil_iff_forall_not_mem.mpr fun v hv => hp v ((hvs v).mp hv)
  exact hl

theorem lists_singleton {v : Value} (h : schema.ListsOnce db table (· = v)) :
    schema.Lists db table [v] := by
  obtain ⟨vs, hl, hnodup, hvs⟩ := h
  have hperm : vs.Perm [v] :=
    (List.perm_ext_iff_of_nodup hnodup (by simp)).mpr fun w => by simp [hvs]
  obtain rfl := List.perm_singleton.mp hperm
  exact hl

end ListsOnce
end Schema

/-! ## Statements -/

namespace Program.wp

variable {schema : Schema} {s : Store} {table : String}

/-- The new ids among those selected are added, each once. -/
theorem insertNewIds {p : Value → Prop} {new : List Value} {select : Database → Except Error Cells}
    {Q : Unit → Store → Prop} (ht : schema.ListsOnce s.database table p) (hnull : ¬ p .null)
    (hs : select s.database = .ok ⟨schema.idAffinity, new⟩) (hnew : schema.idAffinity.Keeps new)
    (hnewNull : .null ∉ new)
    (hQ : ∀ db, schema.ListsOnce db table (fun v => p v ∨ v ∈ new) →
      Database.SameBut [table] s.database db → Q () { s with database := db }) :
    wp (schema.insertNewIds table select) Q s := by
  obtain ⟨vs, hl, hnodup, hp⟩ := ht
  -- what the statement adds are the new ids that the table does not list
  let added := Value.groups (new.filter (·.absentFrom vs))
  have hadded (v : Value) : v ∈ added ↔ v ∈ new ∧ v ∉ vs := by
    simp only [added, Value.mem_groups, List.mem_filter, Value.absentFrom_iff]
    constructor
    · rintro ⟨hv, rfl | ⟨_, _, hout⟩⟩
      · exact ⟨hv, by simp⟩
      · exact ⟨hv, hout⟩
    · rintro ⟨hv, hout⟩
      refine ⟨hv, .inr ⟨?_, fun hn => hnull ((hp _).mp hn), hout⟩⟩
      rintro rfl
      exact hnewNull hv
  have hkeeps : schema.idAffinity.Keeps added := fun v hv => hnew v ((hadded v).mp hv).1
  obtain ⟨db, hinsert, hlists, hsame⟩ := hl.insertColumn hkeeps
  unfold Schema.insertNewIds Schema.insertIds
  refine .update ?_ (hQ db ⟨vs ++ added, hlists, ?_, fun v => ?_⟩ hsame)
  · simpa [hl.ids, hs, Cells.values_without] using hinsert
  · rw [List.nodup_append]
    refine ⟨hnodup, Value.nodup_groups _, ?_⟩
    rintro v hv w hw rfl
    exact ((hadded v).mp hw).2 hv
  · simp only [List.mem_append, hadded, ← hp]
    by_cases hv : v ∈ vs <;> simp [hv]

end Program.wp

/-! ## Scratch tables -/

/-- Scratch tables can be created: the beginning of their names is one that may be given. -/
def Store.CanScratch (s : Store) : Prop := Name.isGivable (s.scratchStem ++ "_") = true

namespace Name

/-- What follows an underscore does not make a name one of the database's own. -/
theorem isGivable_append {a b : String} (ha : isGivable (a ++ "_") = true)
    (hb : isWritable b = true) : isGivable (a ++ "_" ++ b) = true := by
  simp only [isGivable, Bool.and_eq_true, Bool.not_eq_true', isWritable] at ha hb ⊢
  obtain ⟨hw, hstem⟩ := ha
  refine ⟨by simp_all, ?_⟩
  rw [Bool.eq_false_iff] at hstem ⊢
  intro h
  apply hstem
  rw [List.isPrefixOf_iff_prefix] at h ⊢
  simp only [folded, Text.lower, String.toList_ofList, String.toList_append, List.map_append] at h ⊢
  by_cases hlen : reservedStem.toList.length ≤ (a.toList.map Char.toLower ++ ['_']).length
  · exact List.prefix_of_prefix_length_le h (List.prefix_append _ _) hlen
  · -- the underscore would stand among the letters of the stem
    have hpre : a.toList.map Char.toLower ++ ['_'] <+: reservedStem.toList :=
      List.prefix_of_prefix_length_le (List.prefix_append _ _) h (by omega)
    have htake : a.toList.map Char.toLower ++ ['_'] <+: reservedStem.toList.take 6 := by
      have hlength : reservedStem.toList.length = 7 := rfl
      exact List.prefix_take_iff.mpr ⟨hpre, by omega⟩
    have hmem : '_' ∈ reservedStem.toList.take 6 := htake.subset (by simp)
    exact absurd hmem (by decide)

theorem isWritable_toString (n : Nat) : isWritable (toString n) = true := by
  have hout : '\x00' ∉ (toString n).toList := by
    rw [Nat.toString_eq_ofList_toDigits, String.toList_ofList]
    intro h
    exact absurd (Nat.isDigit_of_mem_toDigits (by decide) (by decide) h) (by decide)
  simpa [isWritable] using hout

end Name

theorem Store.CanScratch.isGivable_scratchName {s : Store} (h : s.CanScratch) {t : ScratchTable}
    (hrole : Name.isWritable t.role = true) : Name.isGivable (s.scratchName t) = true := by
  have hrest : Name.isWritable (t.role ++ "_" ++ toString t.request) = true := by
    have hrequest := Name.isWritable_toString t.request
    simp_all [Name.isWritable]
  have := Name.isGivable_append h hrest
  simpa [Store.scratchName, ScratchNames.name, String.append_assoc] using this

/-- Stores that differ at most in their scratch tables. -/
structure Store.SameData (s s' : Store) : Prop where
  database : s'.database = s.database
  stem : s'.scratchStem = s.scratchStem

namespace Store.SameData

variable {s s' s'' : Store}

theorem refl (s : Store) : s.SameData s := ⟨rfl, rfl⟩

theorem trans (h : s.SameData s') (h' : s'.SameData s'') : s.SameData s'' :=
  ⟨h'.database.trans h.database, h'.stem.trans h.stem⟩

theorem canScratch (h : s.SameData s') (hs : s.CanScratch) : s'.CanScratch := by
  simpa [Store.CanScratch, h.stem] using hs

end Store.SameData

namespace Program.wp

variable {α : Type} {s : Store} {Q : α → Store → Prop}

theorem createScratch {request : Nat} {role : String} {Q : Unit → Store → Prop} (hs : s.CanScratch)
    (hrole : Name.isWritable role = true) (hQ : ∀ s', s.SameData s' → Q () s') :
    wp (Program.createScratch request role) Q s := by
  have hname := hs.isGivable_scratchName (t := ⟨request, role⟩) hrole
  unfold Program.createScratch
  refine .bind (.get ?_)
  simp only [hname, Bool.not_true, Bool.false_eq_true, if_false]
  by_cases hnew : s.scratch.contains ⟨request, role⟩
  · simp only [hnew, Bool.not_true, Bool.false_eq_true, if_false]
    exact .pure (hQ s (.refl s))
  · simp only [hnew, Bool.not_false, if_true]
    exact .put (hQ _ ⟨rfl, rfl⟩)

theorem createScratches {request : Nat} {roles : List String} {Q : Unit → Store → Prop}
    (hs : s.CanScratch) (hroles : ∀ role ∈ roles, Name.isWritable role = true)
    (hQ : ∀ s', s.SameData s' → Q () s') :
    wp (roles.forM (Program.createScratch request)) Q s := by
  -- the invariant: only scratch tables have come
  refine (forM (fun _ => s.SameData) (.refl s) fun done role s' hin hsame => ?_).mono
    fun _ s' => hQ s'
  refine .createScratch (hsame.canScratch hs) (hroles role (hin.subset (by simp))) ?_
  exact fun s'' hsame' => hsame.trans hsame'

/-- Scratch tables come and go around the body and leave no trace in the data. -/
theorem withScratch {roles : List String} {body : Nat → Program α}
    (h : ∀ request s₁, s.SameData s₁ →
      wp (body request) (fun a s₂ => ∀ s₃, s₂.SameData s₃ → Q a s₃) s₁) :
    wp (Program.withScratch roles body) Q s := by
  unfold Program.withScratch Program.newRequest Program.dropScratch
  refine .bind (.modifyGet (.bind ?_))
  have hrequest : s.SameData { s with requests := s.requests + 1 } := ⟨rfl, rfl⟩
  refine (h s.requests _ hrequest).mono fun a s₂ hQ => ?_
  exact .bind (.modifyGet (.pure (hQ _ ⟨rfl, rfl⟩)))

end Program.wp

/-! ## Budgets -/

theorem Number.inWord_natCast_iff {n : Nat} : inWord (n : Int) = true ↔ n < wordLimit := by
  simp only [inWord, Bool.and_eq_true, decide_eq_true_eq]
  omega

namespace Program

variable {s : Store}

/-- Whatever comes of the body, scratch tables leave no trace in the data. -/
theorem yields.withScratch {α : Type} {roles : List String} {body : Nat → Program α}
    {R : Except Error α → Store → Prop}
    (h : ∀ request s₁, s.SameData s₁ →
      yields (body request) (fun r s₂ => ∀ s₃, s₂.SameData s₃ → R r s₃) s₁) :
    yields (Program.withScratch roles body) R s := by
  unfold Program.withScratch Program.newRequest Program.dropScratch
  refine .bind (.modifyGet ?_)
  have hbody := h s.requests { s with requests := s.requests + 1 } ⟨rfl, rfl⟩
  cases hm : (body s.requests).perform { s with requests := s.requests + 1 } with
  | mk outcome s₂ =>
    rw [yields, hm] at hbody
    cases outcome with
    | ok a => exact .bind ⟨a, s₂, hm, .of_wp (.bind (.modifyGet (.pure (hbody _ ⟨rfl, rfl⟩))))⟩
    | error e => exact .of_error (perform_bind_of_error hm) (hbody _ (.refl _))

/-- The program succeeds if the engine takes the number that it is given for a budget, and then `Q` holds
of the store that it leaves. If not it fails, and the data stay as they are. -/
def takes (n : Nat) (m : Program Unit) (Q : Store → Prop) (s : Store) : Prop :=
  m.yields (fun r s' => (n < Number.wordLimit → r = .ok () ∧ Q s') ∧
    (Number.wordLimit ≤ n → r = .error .parameterTooLarge ∧ s'.database = s.database)) s

namespace takes

variable {n : Nat} {m : Program Unit} {Q : Store → Prop}

theorem wp (h : takes n m Q s) (hn : n < Number.wordLimit) : m.wp (fun _ => Q) s := by
  obtain ⟨hok, hQ⟩ := h.1 hn
  exact ⟨(), _, Prod.ext hok rfl, hQ⟩

theorem fails (h : takes n m Q s) (hn : Number.wordLimit ≤ n) :
    ∃ s', m.perform s = (.error .parameterTooLarge, s') ∧ s'.database = s.database := by
  obtain ⟨herror, hsame⟩ := h.2 hn
  exact ⟨_, Prod.ext herror rfl, hsame⟩

/-- The success is that of a number that the engine takes. -/
theorem lt_of_wp (h : takes n m Q s) {P : Unit → Store → Prop} (hm : m.wp P s) :
    n < Number.wordLimit := by
  by_contra hn
  obtain ⟨_, hfails, _⟩ := h.fails (Nat.le_of_not_lt hn)
  obtain ⟨_, _, hrun, _⟩ := hm
  cases congrArg Prod.fst (hfails.symm.trans hrun)

end takes

/-- Where the number is tested, in a body that has not changed the data. -/
theorem yields.test {n : Nat} {m : Program Unit} {Q : Store → Prop} {s₀ : Store}
    {f : PUnit → Program Unit} (hdata : s.database = s₀.database)
    (h : n < Number.wordLimit → m.wp (fun _ s₂ => ∀ s₃, s₂.SameData s₃ → Q s₃) s) :
    yields (if (!Number.inWord n) = true then MonadExcept.throw .parameterTooLarge >>= f else m)
      (fun r s₂ => ∀ s₃, s₂.SameData s₃ → (n < Number.wordLimit → r = .ok () ∧ Q s₃) ∧
        (Number.wordLimit ≤ n → r = .error .parameterTooLarge ∧ s₃.database = s₀.database)) s := by
  refine .guard (fun hlarge s₃ hs₃ => ?_) fun hfits => .of_wp ?_
  · have hn : ¬ n < Number.wordLimit := by
      rw [← Number.inWord_natCast_iff]
      simpa using hlarge
    exact ⟨fun h => absurd h hn, fun _ => ⟨rfl, hs₃.database.trans hdata⟩⟩
  · have hn : n < Number.wordLimit := Number.inWord_natCast_iff.mp (by simpa using hfits)
    refine (h hn).mono fun _ s₂ hQ s₃ hs₃ => ⟨fun _ => ⟨rfl, hQ s₃ hs₃⟩, fun hle => ?_⟩
    exact absurd hn (Nat.not_lt.mpr hle)

end Program
end Provenance
