-- SUMMARY: The tables that each instruction writes to, and in which of five ways.
import Provenance.Proofs.Known

/-!
# What instructions write

Every instruction that writes has one handle for its target, and each of its statements does one of
five things to one of the two tables of that handle: it drops the table, creates it, adds the ids
that the table does not hold yet, adds ids whatever the table holds, or adds rows of metadata.
`Write` lists them once and for all, and `Instruction.access?` says which of them an instruction may
do.
-/
namespace Provenance

open Program Store

/-- What has tables of its own. -/
inductive Handle where
  | graph (g : GraphRef)
  | metadata (name : String)
  deriving DecidableEq

/-- What an instruction does to its target. Without a guard, ids are added even if they are
there. -/
inductive Access where
  | make (target : Handle)
  | insert (target : GraphRef) (unguarded : List Element)
  | overwrite (target : String)

namespace Access

def target : Access → Handle
  | make target => target
  | insert target _ => .graph target
  | overwrite target => .metadata target

def makes : Access → Bool
  | make _ => true
  | _ => false

def unguarded : Access → List Element
  | insert _ unguarded => unguarded
  | _ => []

end Access

/-- Instructions that read have no access, and neither has one that always fails. -/
def Instruction.access? : Instruction → Option Access
  | createEmpty target => some (.make (.graph target))
  | distinctify target _ => some (.insert target [.vertex, .edge])
  | union target _ => some (.insert target [])
  | intersect target _ _ => some (.insert target [.vertex, .edge])
  | subtract target _ _ component => some (.insert target component.elements)
  | limit target _ _ => some (.insert target [.vertex, .edge])
  | insertGiven _ target _ => some (.insert target [])
  | select e target _ _ => some (.insert target [e])
  | selectCarriers target _ _ => some (.insert target [.vertex])
  | matchVertices target _ _ _ => some (.insert target [])
  | endpoints target _ _ => some (.insert target [])
  | subgraph target _ _ => some (.insert target [])
  | collapse target _ _ => some (.insert target [.vertex, .edge])
  | adjacent target _ _ _ => some (.insert target [])
  | lineage target _ _ _ _ => some (.insert target [])
  | shortestPath target _ _ _ _ => some (.insert target [])
  | simplePath target _ _ _ _ => some (.insert target [])
  | link target _ _ _ _ => some (.insert target [])
  | createEmptyMetadata target => some (.make (.metadata target))
  | overwriteMetadata target _ _ => some (.overwrite target)
  | _ => none

/-- The handle that an instruction writes to, if any. -/
def Instruction.target? (i : Instruction) : Option Handle := i.access?.map (·.target)

/-- The instruction makes the tables of its target anew. -/
def Instruction.makes (i : Instruction) : Bool := i.access?.any (·.makes)

namespace Environment

/-- The tables of a handle. -/
def tablesOf (env : Environment) : Handle → Except Error TablePair
  | .graph g => env.resolve g
  | .metadata name => env.resolveMetadata name

/-- The tables of a handle that an instruction may write to. -/
def writableTables (env : Environment) : Handle → Except Error TablePair
  | .graph g => env.writable g
  | .metadata name => env.resolveMetadata name

/-- The columns of the tables of a handle when they are made anew. -/
def columnsOf (env : Environment) : Handle → List Column
  | .graph _ => env.schema.idColumns
  | .metadata _ => env.schema.metadataColumns

/-- One statement of an instruction that started with the database `before`. -/
inductive Write (env : Environment) (before : Database) : Access → Database → Database → Prop
  | drop {target : Handle} {tables : TablePair} {db : Database} {e : Element}
      (htables : env.writableTables target = .ok tables) :
      Write env before (.make target) db (db.drop (tables.part e))
  | create {target : Handle} {tables : TablePair} {db db' : Database} {e : Element}
      (htables : env.writableTables target = .ok tables)
      (hdb : db.create (tables.part e) (env.columnsOf target) = .ok db') :
      Write env before (.make target) db db'
  | insertNew {target : GraphRef} {unguarded : List Element} {tables : TablePair}
      {db db' : Database} {e : Element} {found present : Cells}
      (htables : env.writable target = .ok tables) (hfound : env.Drawn db e found)
      (hpresent : env.schema.ids db (tables.part e) = .ok present)
      (hdb : db.insertColumn (tables.part e) env.schema.idColumn
        (Value.groups (found.without present).values) = .ok db') :
      Write env before (.insert target unguarded) db db'
  /-- The table is written for the first time. -/
  | insertAll {target : GraphRef} {unguarded : List Element} {tables : TablePair}
      {db db' : Database} {e : Element} {vs : List Value}
      (htables : env.writable target = .ok tables) (he : e ∈ unguarded)
      (hfirst : Name.folded tables.vertices ≠ Name.folded tables.edges →
        db.find? (tables.part e) = before.find? (tables.part e))
      (hknown : ∀ v ∈ vs, env.Known db e v) (hnodup : env.UniqueEdges db → vs.Nodup)
      (hdb : db.insertColumn (tables.part e) env.schema.idColumn vs = .ok db') :
      Write env before (.insert target unguarded) db db'
  | tag {target : String} {tables : TablePair} {db db' : Database} {e : Element} {rows : List Row}
      (htables : env.resolveMetadata target = .ok tables)
      (hdb : db.insertMetadata (tables.part e) rows = .ok db') :
      Write env before (.overwrite target) db db'

/-- The statements that an instruction has access for. -/
def Writes (env : Environment) (before : Database) (i : Instruction) (db db' : Database) : Prop :=
  ∃ a ∈ i.access?, env.Write before a db db'

end Environment

/-! ## Statements -/

theorem Database.insertColumn_eq_ok {db db' : Database} {name column : String} {vs : List Value}
    (h : db.insertColumn name column vs = .ok db') :
    ∃ t, db.find? name = some t ∧ t.has column = true ∧
      db' = db.put name (t.append (t.column column vs)) := by
  obtain ⟨t, ht, hdb⟩ := Except.bind_eq_ok.mp h
  obtain ⟨hfind, hhas⟩ := tableWith_eq_ok ht
  exact ⟨t, hfind, hhas _ (by simp), (Except.ok.inj hdb).symm⟩

theorem Database.insertMetadata_eq_ok {db db' : Database} {name : String} {rows : List Row}
    (h : db.insertMetadata name rows = .ok db') :
    ∃ t more, db.find? name = some t ∧ db' = db.put name (t.append more) := by
  obtain ⟨t, ht, hdb⟩ := Except.bind_eq_ok.mp h
  exact ⟨t, _, (tableWith_eq_ok ht).1, (Except.ok.inj hdb).symm⟩

theorem Database.create_eq_ok {db db' : Database} {name : String} {columns : List Column}
    (h : db.create name columns = .ok db') :
    db.find? name = none ∧ db' = db.put name ⟨columns, []⟩ := by
  unfold create at h
  dsimp only at h
  split at h
  · cases h
  · next hfree =>
    split at h
    · cases h
    · split at h
      · cases h
      · exact ⟨by simp_all, (Except.ok.inj h).symm⟩

theorem TablePair.folded_part_ne {tables : TablePair} {e e' : Element}
    (h : Name.folded tables.vertices ≠ Name.folded tables.edges) (he : e ≠ e') :
    Name.folded (tables.part e) ≠ Name.folded (tables.part e') := by
  cases e with
  | vertex =>
    cases e' with
    | vertex => exact absurd rfl he
    | edge => exact h
  | edge =>
    cases e' with
    | vertex => exact h.symm
    | edge => exact absurd rfl he

namespace Program.ends

open Environment

variable {env : Environment} {before : Database} {own : ScratchTable → Prop} {s₀ s : Store}
  {target : GraphRef} {unguarded : List Element} {tables : TablePair} {e : Element}
  {Q : Unit → Store → Prop}

theorem createTable (handle : Handle) (e : Element)
    (h : Footprint (env.Write before (.make handle)) own s₀ s)
    (htables : env.writableTables handle = .ok tables)
    (hQ : ∀ s', Footprint (env.Write before (.make handle)) own s₀ s' → Q () s') :
    ends (Program.createTable (tables.part e) (env.columnsOf handle) true) Q
      (Footprint (env.Write before (.make handle)) own s₀) s := by
  unfold Program.createTable
  rw [if_pos rfl]
  refine .bind (.update h fun db hdrop => ?_)
  obtain rfl := Except.ok.inj hdrop
  have hdropped := h.write (.drop htables (e := e))
  exact .update hdropped fun db hdb => hQ _ (hdropped.write (.create htables hdb))

/-- New known ids are added to the target. -/
theorem insertNewIds (e : Element) {select : Database → Except Error Cells}
    (h : Footprint (env.Write before (.insert target unguarded)) own s₀ s)
    (htables : env.writable target = .ok tables)
    (hselect : ∀ found, select s.database = .ok found → env.Drawn s.database e found)
    (hQ : ∀ s', Footprint (env.Write before (.insert target unguarded)) own s₀ s' →
      Database.Grows s.database s'.database → Q () s') :
    ends (env.schema.insertNewIds (tables.part e) select) Q
      (Footprint (env.Write before (.insert target unguarded)) own s₀) s := by
  unfold Schema.insertNewIds Schema.insertIds
  refine .update h fun db hdb => ?_
  obtain ⟨vs, hvs, hdb⟩ := Except.bind_eq_ok.mp hdb
  obtain ⟨present, hpresent, hvs⟩ := Except.bind_eq_ok.mp hvs
  obtain ⟨found, hfound, hvs⟩ := Except.bind_eq_ok.mp hvs
  obtain rfl := Except.ok.inj hvs
  refine hQ _ (h.write (.insertNew htables (hselect found hfound) hpresent hdb)) ?_
  obtain ⟨t, ht, _, rfl⟩ := Database.insertColumn_eq_ok hdb
  exact .put ht _

/-- Known ids are added to a table of the target that was not written to before. -/
theorem insertIds (e : Element) {select : Database → Except Error (List Value)}
    (h : Footprint (env.Write before (.insert target unguarded)) own s₀ s)
    (htables : env.writable target = .ok tables) (he : e ∈ unguarded)
    (hfirst : Name.folded tables.vertices ≠ Name.folded tables.edges →
      s.database.find? (tables.part e) = before.find? (tables.part e))
    (hselect : ∀ vs, select s.database = .ok vs →
      (env.UniqueEdges s.database → vs.Nodup) ∧ ∀ v ∈ vs, env.Known s.database e v)
    (hQ : ∀ s', Footprint (env.Write before (.insert target unguarded)) own s₀ s' →
      Database.SameBut [tables.part e] s.database s'.database → Q () s') :
    ends (env.schema.insertIds (tables.part e) select) Q
      (Footprint (env.Write before (.insert target unguarded)) own s₀) s := by
  unfold Schema.insertIds
  refine .update h fun db hdb => ?_
  obtain ⟨vs, hvs, hdb⟩ := Except.bind_eq_ok.mp hdb
  obtain ⟨hnodup, hknown⟩ := hselect vs hvs
  refine hQ _ (h.write (.insertAll htables he hfirst hknown hnodup hdb)) ?_
  obtain ⟨t, _, _, rfl⟩ := Database.insertColumn_eq_ok hdb
  exact .put _ _ _

/-- Each of the elements is written once. -/
theorem eachOnce (tables : TablePair) {elements : List Element} {statement : Element → Program Unit}
    (hnodup : elements.Nodup) (h : Footprint (env.Write before (.insert target unguarded)) own s₀ s)
    (hfirst : ∀ e ∈ elements, Name.folded tables.vertices ≠ Name.folded tables.edges →
      s.database.find? (tables.part e) = before.find? (tables.part e))
    (hstatement : ∀ e ∈ elements, ∀ s',
      Footprint (env.Write before (.insert target unguarded)) own s₀ s' →
      (Name.folded tables.vertices ≠ Name.folded tables.edges →
        s'.database.find? (tables.part e) = before.find? (tables.part e)) →
      ends (statement e) (fun _ s'' =>
          Footprint (env.Write before (.insert target unguarded)) own s₀ s'' ∧
            Database.SameBut [tables.part e] s'.database s''.database)
        (Footprint (env.Write before (.insert target unguarded)) own s₀) s') :
    ends (elements.forM statement)
      (fun _ => Footprint (env.Write before (.insert target unguarded)) own s₀)
      (Footprint (env.Write before (.insert target unguarded)) own s₀) s := by
  induction elements generalizing s with
  | nil => exact .pure h
  | cons e rest ih =>
    obtain ⟨hout, hnodup⟩ := List.nodup_cons.mp hnodup
    apply bind
    refine (hstatement e (by simp) s h (hfirst e (by simp))).mono (fun _ s' h' => ?_) fun _ => id
    obtain ⟨h', hsame⟩ := h'
    refine ih hnodup h' (fun e' he' hne => ?_) fun e' he' => hstatement e' (by simp [he'])
    have hother : e' ≠ e := by
      rintro rfl
      exact hout he'
    refine (hsame _ ?_).trans (hfirst e' (by simp [he']) hne)
    simpa using tables.folded_part_ne hne hother

/-- The vertices of pairs that agree are added to the target. -/
theorem insertMatched {request : Nat} {roles : List String} {left right : Cells}
    {keys : List String}
    (h : Footprint (env.Write before (.insert target unguarded)) (ScratchTable.IsOf request roles)
      s₀ s)
    (hroles : "pairs" ∈ roles ∧ "matched" ∈ roles) :
    ends (do
        Program.createScratch request "pairs"
        Program.createScratch request "matched"
        let pairs ← Program.query fun db => env.agreeing db left right keys
        let target ← env.writable target
        env.schema.insertNewIds target.vertices fun _ =>
          return env.schema.scratchIds (pairs.map (·.1) ++ pairs.map (·.2)))
      (fun _ => Footprint (env.Write before (.insert target unguarded))
        (ScratchTable.IsOf request roles) s₀)
      (Footprint (env.Write before (.insert target unguarded)) (ScratchTable.IsOf request roles)
        s₀) s := by
  refine .bind (.createScratch h ⟨rfl, hroles.1⟩ fun s₁ hs₁ h₁ => ?_)
  refine .bind (.createScratch h₁ ⟨rfl, hroles.2⟩ fun s₂ hs₂ h₂ => ?_)
  refine .bind (.query h₂ fun pairs hpairs => .bind (.ofExcept h₂ fun tables htables => ?_))
  refine .insertNewIds .vertex h₂ htables (fun cells hcells => ?_) fun _ h _ => h
  obtain rfl := Except.ok.inj hcells
  apply Drawn.of_scratch
  intro v hv
  rcases List.mem_append.mp hv with hv | hv
  · obtain ⟨pair, hpair, rfl⟩ := List.mem_map.mp hv
    exact (annotated_of_agreeing hpairs pair hpair).1.known
  · obtain ⟨pair, hpair, rfl⟩ := List.mem_map.mp hv
    exact (annotated_of_agreeing hpairs pair hpair).2.known

theorem overwriteTable {name lhs rhs : String} (e : Element)
    (h : Footprint (env.Write before (.overwrite name)) own s₀ s)
    (htables : env.resolveMetadata name = .ok tables)
    (hQ : ∀ s', Footprint (env.Write before (.overwrite name)) own s₀ s' → Q () s') :
    ends (Environment.overwriteTable (tables.part e) lhs rhs) Q
      (Footprint (env.Write before (.overwrite name)) own s₀) s := by
  unfold Environment.overwriteTable
  refine .bind (.update h fun db hdb => ?_)
  obtain ⟨right, _, hdb⟩ := Except.bind_eq_ok.mp hdb
  obtain ⟨left, _, hdb⟩ := Except.bind_eq_ok.mp hdb
  have h₁ := h.write (.tag htables hdb)
  refine .update h₁ fun db' hdb' => ?_
  obtain ⟨right, _, hdb'⟩ := Except.bind_eq_ok.mp hdb'
  exact hQ _ (h₁.write (.tag htables hdb'))

end Program.ends

/-! ## Instructions one by one -/

namespace Environment

theorem forBoth_eq_forM (statement : Element → Program Unit) :
    forBoth statement = [Element.vertex, .edge].forM statement := by
  simp [forBoth]

variable {env : Environment} {s : Store} {target : GraphRef}

theorem createEmpty_leaves :
    Leaves (env.Write s.database (.make (.graph target))) (env.createEmpty target) s := by
  unfold createEmpty forBoth
  refine .bind (.ofExcept (.refl s) fun tables htables => ?_)
  refine .leaves (.bind (.createTable (.graph target) .vertex (.refl s) htables fun s₁ h₁ => ?_))
  exact .createTable (.graph target) .edge h₁ htables fun _ => id

theorem distinctify_leaves {source : GraphRef} :
    Leaves (env.Write s.database (.insert target [.vertex, .edge])) (env.distinctify target source)
      s := by
  unfold distinctify
  refine .bind (.ofExcept (.refl s) fun tables htables => ?_)
  refine .bind (.ofExcept (.refl s) fun sources hsources => ?_)
  rw [forBoth_eq_forM]
  refine .leaves (.eachOnce tables (by decide) (.refl s) (fun _ _ _ => rfl)
    fun e he s' h hfirst => ?_)
  refine .insertIds e h htables he hfirst (fun vs hvs => ?_) fun _ h' hsame => ⟨h', hsame⟩
  obtain ⟨cells, hcells, hvs⟩ := Except.bind_eq_ok.mp hvs
  obtain rfl := Except.ok.inj hvs
  exact ⟨fun _ => Value.nodup_groups _, known_of_groups (Drawn.of_ids hsources hcells).known⟩

theorem union_leaves {source : GraphRef} :
    Leaves (env.Write s.database (.insert target [])) (env.union target source) s := by
  unfold union forBoth
  refine .bind (.ofExcept (.refl s) fun tables htables => ?_)
  refine .bind (.ofExcept (.refl s) fun sources hsources => ?_)
  refine .leaves (.bind (.insertNewIds .vertex (.refl s) htables (fun _ => .of_ids hsources)
    fun s₁ h₁ _ => ?_))
  exact .insertNewIds .edge h₁ htables (fun _ => .of_ids hsources) fun _ h _ => h

theorem intersect_leaves {lhs rhs : GraphRef} :
    Leaves (env.Write s.database (.insert target [.vertex, .edge])) (env.intersect target lhs rhs)
      s := by
  unfold intersect
  refine .bind (.ofExcept (.refl s) fun tables htables => ?_)
  refine .bind (.ofExcept (.refl s) fun lefts hlefts => ?_)
  refine .bind (.ofExcept (.refl s) fun rights _ => ?_)
  rw [forBoth_eq_forM]
  refine .leaves (.eachOnce tables (by decide) (.refl s) (fun _ _ _ => rfl)
    fun e he s' h hfirst => ?_)
  refine .insertIds e h htables he hfirst (fun vs hvs => ?_) fun _ h' hsame => ⟨h', hsame⟩
  obtain ⟨left, hleft, hvs⟩ := Except.bind_eq_ok.mp hvs
  obtain ⟨right, _, hvs⟩ := Except.bind_eq_ok.mp hvs
  obtain rfl := Except.ok.inj hvs
  have hknown := ((Drawn.of_ids hlefts hleft).within right).known
  exact ⟨fun _ => Value.nodup_groups _, known_of_groups hknown⟩

theorem nodup_elements (component : Component) : component.elements.Nodup := by
  cases component <;> decide

theorem subtract_leaves {minuend subtrahend : GraphRef} {component : Component} :
    Leaves (env.Write s.database (.insert target component.elements))
      (env.subtract target minuend subtrahend component) s := by
  unfold subtract
  refine .bind (.ofExcept (.refl s) fun tables htables => ?_)
  refine .bind (.ofExcept (.refl s) fun lefts hlefts => ?_)
  refine .bind (.ofExcept (.refl s) fun rights _ => ?_)
  refine .leaves (.eachOnce tables (nodup_elements component) (.refl s) (fun _ _ _ => rfl)
    fun e he s' h hfirst => ?_)
  refine .insertIds e h htables he hfirst (fun vs hvs => ?_) fun _ h' hsame => ⟨h', hsame⟩
  obtain ⟨left, hleft, hvs⟩ := Except.bind_eq_ok.mp hvs
  obtain ⟨right, _, hvs⟩ := Except.bind_eq_ok.mp hvs
  obtain rfl := Except.ok.inj hvs
  have hknown := ((Drawn.of_ids hlefts hleft).without right).known
  exact ⟨fun _ => Value.nodup_groups _, known_of_groups hknown⟩

theorem reads_count {g : GraphRef} : (env.count g).reads (fun _ => True) s :=
  .bind (.ofExcept fun _ _ => trivial) fun _ _ => .bind (.query fun _ _ => trivial) fun _ _ =>
    .bind (.query fun _ _ => trivial) fun _ _ => .pure trivial

theorem limit_leaves {source : GraphRef} {bound : Int} :
    Leaves (env.Write s.database (.insert target [.vertex, .edge])) (env.limit target source bound)
      s := by
  unfold limit
  refine .guard (.refl s) (.bind (.ofExcept (.refl s) fun tables htables => ?_))
  refine reads_count.bind_ends (.refl s) fun sizes _ => ?_
  refine .bind (.ofExcept (.refl s) fun sources hsources => ?_)
  rw [forBoth_eq_forM]
  refine .leaves (.eachOnce tables (by decide) (.refl s) (fun _ _ _ => rfl)
    fun e he s' h hfirst => ?_)
  refine .ite (fun _ => ?_) fun _ => ?_
  · refine .insertIds e h htables he hfirst (fun vs hvs => ?_) fun _ h' hsame => ⟨h', hsame⟩
    obtain ⟨_, hvs⟩ := Except.guard_eq_ok.mp hvs
    obtain ⟨cells, hcells, hvs⟩ := Except.bind_eq_ok.mp hvs
    obtain rfl := Except.ok.inj hvs
    refine ⟨fun _ => (Value.nodup_groups _).sublist (List.take_sublist _ _), fun v hv => ?_⟩
    exact known_of_groups (Drawn.of_ids hsources hcells).known v (List.mem_of_mem_take hv)
  · exact .pure ⟨h, .refl _ _⟩

theorem insertGiven_leaves {e : Element} {ids : List String} :
    Leaves (env.Write s.database (.insert target [])) (env.insertGiven e target ids) s := by
  unfold insertGiven
  refine .bind (.ofExcept (.refl s) fun tables htables => ?_)
  refine .ite (fun _ => .done) fun _ => .withScratch fun request s₁ hs₁ => ?_
  refine .bind (.createScratch (.refl s₁) ⟨rfl, by simp⟩ fun s₂ hs₂ h₂ => ?_)
  refine .insertNewIds e h₂ htables (fun found hfound => ?_) fun _ h _ => h
  obtain ⟨cells, hcells, hfound⟩ := Except.bind_eq_ok.mp hfound
  obtain rfl := Except.ok.inj hfound
  exact (Drawn.of_annotations hcells).within _

theorem select_leaves [RegexLibrary] {e : Element} {subject : GraphRef} {p : Option Predicate} :
    Leaves (env.Write s.database (.insert target [e])) (env.select e target subject p) s := by
  unfold select
  refine .bind (.ofExcept (.refl s) fun tables htables => ?_)
  refine .bind (.ofExcept (.refl s) fun subjects hsubjects => ?_)
  refine .bind (.ofExcept (.refl s) fun table? _ => ?_)
  cases p with
  | none =>
    refine .leaves (.insertIds e (.refl s) htables (by simp) (fun _ => rfl) (fun vs hvs => ?_)
      fun _ h _ => h)
    obtain ⟨cells, hcells, hvs⟩ := Except.bind_eq_ok.mp hvs
    obtain rfl := Except.ok.inj hvs
    exact ⟨fun _ => Value.nodup_groups _, known_of_groups (Drawn.of_ids hsubjects hcells).known⟩
  | some p =>
    refine reads_annotationColumns.bind_ends (.refl s) fun columns _ => ?_
    refine .ite (fun _ => .done) fun _ => .leaves (.insertIds e (.refl s) htables (by simp)
      (fun _ => rfl) (fun vs hvs => ?_) fun _ h _ => h)
    obtain ⟨ids, hids, hvs⟩ := Except.bind_eq_ok.mp hvs
    obtain rfl := Except.ok.inj hvs
    refine ⟨fun _ => Value.nodup_groups _, known_of_groups fun v hv => ?_⟩
    exact (annotated_of_idsMatching hids v hv).known

theorem selectCarriers_leaves {subject : GraphRef} {keys : List String} :
    Leaves (env.Write s.database (.insert target [.vertex]))
      (env.selectCarriers target subject keys) s := by
  unfold selectCarriers
  refine .bind (.ofExcept (.refl s) fun tables htables => ?_)
  refine .bind (.ofExcept (.refl s) fun subjects _ => ?_)
  refine reads_carriers.bind_ends (.refl s) fun found hfound => ?_
  cases found with
  | none => exact .done
  | some ids =>
    refine .leaves (.insertIds .vertex (.refl s) htables (by simp) (fun _ => rfl)
      (fun vs hvs => ?_) fun _ h _ => h)
    obtain ⟨hnodup, hannotated⟩ := hfound ids rfl _ vs hvs
    exact ⟨fun _ => hnodup, fun v hv => (hannotated v hv).known⟩

theorem matchVertices_leaves {lhs rhs : GraphRef} {keys : List String} :
    Leaves (env.Write s.database (.insert target [])) (env.matchVertices target lhs rhs keys)
      s := by
  unfold matchVertices
  refine .bind (.ofExcept (.refl s) fun _ _ => .withScratch fun request s₁ hs₁ => ?_)
  refine .bind (.createScratch (.refl s₁) ⟨rfl, by simp⟩ fun s₂ hs₂ h₂ => ?_)
  refine .bind (.createScratch h₂ ⟨rfl, by simp⟩ fun s₃ hs₃ h₃ => ?_)
  refine .bind (.ofExcept h₃ fun lefts _ => reads_carriers.bind_ends h₃ fun leftIds hleft => ?_)
  cases leftIds with
  | none => exact .pure h₃
  | some leftIds =>
    refine .bind (.query h₃ fun left _ => .bind (.ofExcept h₃ fun rights _ => ?_))
    refine reads_carriers.bind_ends h₃ fun rightIds hright => ?_
    cases rightIds with
    | none => exact .bind (.pure (.insertMatched h₃ (by simp)))
    | some rightIds =>
      exact .bind (.query h₃ fun right _ => .bind (.pure (.insertMatched h₃ (by simp))))

theorem endpoints_leaves {subject : GraphRef} {endpoint : Endpoint} :
    Leaves (env.Write s.database (.insert target [])) (env.endpoints target subject endpoint)
      s := by
  unfold endpoints
  refine .bind (.ofExcept (.refl s) fun tables htables => ?_)
  refine .bind (.ofExcept (.refl s) fun subjects _ => .withScratch fun request s₁ hs₁ => ?_)
  refine .bind (.createScratch (.refl s₁) ⟨rfl, by simp⟩ fun s₂ hs₂ h₂ => ?_)
  have hfound : ((env.endpointColumns endpoint).mapM fun column => Program.query fun db =>
      return (← env.endpointsIn db subjects.edges column).values).reads
        (fun found => ∀ vs ∈ found, ∀ v ∈ vs, env.Known s₂.database .vertex v) s₂ := by
    refine .mapM fun column hcolumn => .query fun vs hvs => ?_
    obtain ⟨cells, hcells, hvs⟩ := Except.bind_eq_ok.mp hvs
    obtain rfl := Except.ok.inj hvs
    exact known_of_endpointsIn (endpointColumns_subset endpoint hcolumn) hcells
  refine hfound.bind_ends h₂ fun found hknown => ?_
  refine .insertNewIds .vertex h₂ htables (fun cells hcells => ?_) fun _ h _ => h
  obtain rfl := Except.ok.inj hcells
  apply Drawn.of_scratch
  intro v hv
  obtain ⟨vs, hvs, hv⟩ := List.mem_flatten.mp hv
  exact hknown vs hvs v hv

theorem subgraph_leaves {subject skeleton : GraphRef} :
    Leaves (env.Write s.database (.insert target [])) (env.subgraph target subject skeleton)
      s := by
  unfold subgraph
  refine .bind (.ofExcept (.refl s) fun tables htables => ?_)
  refine .bind (.ofExcept (.refl s) fun subjects hsubjects => ?_)
  refine .bind (.ofExcept (.refl s) fun skeletons hskeletons => ?_)
  refine .withScratch fun request s₁ hs₁ => ?_
  refine .bind (.createScratch (.refl s₁) ⟨rfl, by simp⟩ fun s₂ hs₂ h₂ => ?_)
  refine .bind (.query h₂ fun own hown => ?_)
  have hown : ∀ v ∈ own, env.Known s₂.database .vertex v := by
    obtain ⟨inside, _, hown⟩ := Except.bind_eq_ok.mp hown
    obtain ⟨cells, hcells, hown⟩ := Except.bind_eq_ok.mp hown
    obtain rfl := Except.ok.inj hown
    exact ((Drawn.of_ids (e := .vertex) hskeletons hcells).within inside).known
  have hends : ((env.endpointColumns .both).mapM fun column => Program.query fun db => do
      let inside ← env.schema.ids db subjects.vertices
      return ((← env.endpointsIn db skeletons.edges column).within inside).values).reads
        (fun ends => ∀ vs ∈ ends, ∀ v ∈ vs, env.Known s₂.database .vertex v) s₂ := by
    refine .mapM fun column hcolumn => .query fun vs hvs => ?_
    obtain ⟨inside, _, hvs⟩ := Except.bind_eq_ok.mp hvs
    obtain ⟨cells, hcells, hvs⟩ := Except.bind_eq_ok.mp hvs
    obtain rfl := Except.ok.inj hvs
    exact fun v hv => known_of_endpointsIn hcolumn hcells v (List.mem_filter.mp hv).1
  refine hends.bind_ends h₂ fun ends hknown => ?_
  refine .bind (.insertNewIds .vertex h₂ htables (fun cells hcells => ?_) fun s₃ h₃ _ => ?_)
  · obtain rfl := Except.ok.inj hcells
    apply Drawn.of_scratch
    intro v hv
    rcases List.mem_append.mp hv with hv | hv
    · exact hown v hv
    · obtain ⟨vs, hvs, hv⟩ := List.mem_flatten.mp hv
      exact hknown vs hvs v hv
  · refine .insertNewIds .edge h₃ htables (fun cells hcells => ?_) fun _ h _ => h
    obtain ⟨ids, hids, hcells⟩ := Except.bind_eq_ok.mp hcells
    obtain ⟨inside, _, hcells⟩ := Except.bind_eq_ok.mp hcells
    obtain rfl := Except.ok.inj hcells
    exact (Drawn.of_ids (e := .edge) hsubjects hids).within inside

theorem lineageAlong_ends {request : Nat} {roles : List String} {before : Database} {s₀ : Store}
    {tables starts : TablePair} {g : GraphRef} {edges? : Option String} {steps : Nat} {way : Way}
    (h : Footprint (env.Write before (.insert target [])) (ScratchTable.IsOf request roles) s₀ s)
    (hroles : ["cur", "next", "answer", "answer_edge"] ⊆ roles)
    (htables : env.writable target = .ok tables) (hstart : env.resolve g = .ok starts) :
    (env.lineageAlong request tables edges? starts.vertices steps way).ends
      (fun _ => Footprint (env.Write before (.insert target [])) (ScratchTable.IsOf request roles)
        s₀)
      (Footprint (env.Write before (.insert target [])) (ScratchTable.IsOf request roles) s₀)
      s := by
  unfold lineageAlong
  refine .bind (.createScratches h (fun role hrole => ⟨rfl, hroles hrole⟩) fun s₁ _ h₁ => ?_)
  refine (reads_seeds hstart).bind_ends h₁ fun seeds hseeds => ?_
  refine reads_arcsFor.bind_ends h₁ fun arcs harcs => ?_
  refine .bind (.insertNewIds .vertex h₁ htables (fun cells hcells => ?_) fun s₂ h₂ hgrows => ?_)
  · obtain rfl := Except.ok.inj hcells
    refine .of_scratch (Frontier.forall_reached_explore way hseeds (fun a ha => ?_) steps)
    exact (harcs a ha).far way
  · refine .insertNewIds .edge h₂ htables (fun cells hcells => ?_) fun _ h _ => h
    obtain rfl := Except.ok.inj hcells
    apply Drawn.of_scratch
    intro id hid
    obtain ⟨a, ha, rfl⟩ := Frontier.mem_crossed_of_explore hid
    exact (harcs a ha).id.mono hgrows

theorem lineage_leaves {subject start : GraphRef} {depth : Int} {direction : Direction} :
    Leaves (env.Write s.database (.insert target []))
      (env.lineage target subject start depth direction) s := by
  unfold lineage
  refine .bind (.ofExcept (.refl s) fun tables htables => .guard (.refl s) ?_)
  refine .bind (.ofExcept (.refl s) fun edges? _ => ?_)
  refine .bind (.ofExcept (.refl s) fun starts hstart => .withScratch fun request s₁ hs₁ => ?_)
  refine .forM (.refl s₁) fun way _ s₂ h₂ => ?_
  exact lineageAlong_ends h₂ (fun _ => id) htables hstart

theorem shortestPath_leaves {subject src dst : GraphRef} {maxDepth : Int} :
    Leaves (env.Write s.database (.insert target []))
      (env.shortestPath target subject src dst maxDepth) s := by
  unfold shortestPath
  refine .bind (.ofExcept (.refl s) fun tables htables => .guard (.refl s) ?_)
  refine .bind (.ofExcept (.refl s) fun paths hpaths => .withScratch fun request s₁ hs₁ => ?_)
  obtain ⟨edges?, sources, destinations, hsources, hdestinations, rfl⟩ := pathTables_eq_ok hpaths
  refine .bind (.createScratch (.refl s₁) ⟨rfl, by simp⟩ fun s₂ _ h₂ => ?_)
  refine .bind (.query h₂ fun arcs harcs => ?_)
  refine .bind (.createScratch h₂ ⟨rfl, by simp⟩ fun s₃ hs₃ h₃ => .guard h₃ ?_)
  refine .bind (.createScratches h₃ (fun role hrole => ⟨rfl, by revert role; simp⟩)
    fun s₄ hs₄ h₄ => ?_)
  refine (reads_seeds hdestinations).bind_ends h₄ fun seeds _ => ?_
  refine .bind (.createScratches h₄ (fun role hrole => ⟨rfl, by revert role; simp⟩)
    fun s₅ hs₅ h₅ => ?_)
  refine (reads_seedsAmong hsources).bind_ends h₅ fun among hamong => ?_
  have hdb : s₅.database = s₂.database := hs₅.trans (hs₄.trans hs₃)
  refine .guard h₅ (.bind (.insertNewIds .vertex h₅ htables (fun cells hcells => ?_) fun s₆ h₆ _ => ?_))
  · obtain rfl := Except.ok.inj hcells
    refine .of_scratch (Shortest.forall_vertices _ hamong (fun a ha => ?_) _ _)
    exact hdb ▸ (knownArc_of_arcs harcs ha).parent
  · exact .insertNewIds .edge h₆ htables (fun _ => drawn_of_edgesWithin) fun _ h _ => h

theorem simplePath_leaves {subject src dst : GraphRef} {maxDepth : Int} :
    Leaves (env.Write s.database (.insert target []))
      (env.simplePath target subject src dst maxDepth) s := by
  unfold simplePath
  refine .bind (.ofExcept (.refl s) fun tables htables => .guard (.refl s) ?_)
  refine .bind (.ofExcept (.refl s) fun paths hpaths => .withScratch fun request s₁ hs₁ => ?_)
  obtain ⟨edges?, sources, destinations, hsources, hdestinations, rfl⟩ := pathTables_eq_ok hpaths
  refine .bind (.createScratches (.refl s₁) (fun role hrole => ⟨rfl, hrole⟩) fun s₂ _ h₂ => ?_)
  refine (reads_seeds hdestinations).bind_ends h₂ fun seeds _ => ?_
  refine reads_arcsFor.bind_ends h₂ fun arcs harcs => ?_
  refine (reads_seedsAmong hsources).bind_ends h₂ fun among hamong => ?_
  have hreached := forall_reached_directedWalks hamong
    (fun a ha => ⟨(harcs a ha).child, (harcs a ha).parent⟩) seeds maxDepth.toNat
  generalize directedWalks arcs among seeds maxDepth.toNat = found at hreached
  obtain ⟨f, stages⟩ := found
  -- the edges are written stage by stage, the vertices after them
  refine .guard h₂ (.bind ((ends.forM (I := fun s' => Footprint (env.Write s.database (.insert target []))
    (ScratchTable.IsOf request _) s₁ s' ∧ Database.Grows s₂.database s'.database)
    ⟨h₂, .refl _⟩ fun stage _ s₃ h₃ => ?_).mono (fun _ s₃ h₃ => ?_) fun _ => id))
  · refine .insertNewIds .edge h₃.1 htables (fun cells hcells => ?_)
      fun s₄ h₄ hgrows => ⟨h₄, h₃.2.trans hgrows⟩
    obtain rfl := Except.ok.inj hcells
    apply Drawn.of_scratch
    intro id hid
    obtain ⟨a, ha, rfl⟩ := List.mem_map.mp hid
    exact (harcs a (List.mem_filter.mp ha).1).id.mono h₃.2
  · refine .insertNewIds .vertex h₃.1 htables (fun cells hcells => ?_) fun _ h _ => h
    obtain rfl := Except.ok.inj hcells
    exact .of_scratch fun v hv => (hreached v hv).mono h₃.2

theorem link_leaves {subject src dst : GraphRef} {maxDepth : Int} :
    Leaves (env.Write s.database (.insert target [])) (env.link target subject src dst maxDepth)
      s := by
  unfold link
  refine .bind (.ofExcept (.refl s) fun tables htables => .ite (fun _ => .done) fun _ => ?_)
  refine .bind (.ofExcept (.refl s) fun paths hpaths => .withScratch fun request s₁ hs₁ => ?_)
  obtain ⟨edges?, sources, destinations, hsources, hdestinations, rfl⟩ := pathTables_eq_ok hpaths
  refine .bind (.createScratches (.refl s₁) (fun role hrole => ⟨rfl, hrole⟩) fun s₂ _ h₂ => ?_)
  refine (reads_seeds hdestinations).bind_ends h₂ fun seeds _ => ?_
  refine reads_arcsFor.bind_ends h₂ fun arcs harcs => ?_
  refine (reads_seedsAmong hsources).bind_ends h₂ fun among hamong => ?_
  refine .guard h₂ (.bind (.insertNewIds .vertex h₂ htables (fun cells hcells => ?_)
    fun s₃ h₃ _ => ?_))
  · obtain rfl := Except.ok.inj hcells
    refine .of_scratch (forall_reached_undirectedWalks hamong (fun a ha => ?_) _ _)
    exact ⟨(harcs a ha).child, (harcs a ha).parent⟩
  · exact .insertNewIds .edge h₃ htables (fun _ => drawn_of_edgesWithin) fun _ h _ => h

/-- Least edges of groups are edges, and distinct ones if no id occurs twice. -/
theorem collapse_leaves {source : GraphRef} {fields : List String} :
    Leaves (env.Write s.database (.insert target [.vertex, .edge]))
      (env.collapse target source fields) s := by
  unfold collapse
  refine .bind (.ofExcept (.refl s) fun tables htables => ?_)
  refine reads_annotationColumns.bind_ends (.refl s) fun existing _ => ?_
  refine .bind (.ofExcept (.refl s) fun sources hsources => ?_)
  refine .leaves (.bind (.insertIds .vertex (.refl s) htables (by simp) (fun _ => rfl)
    (fun vs hvs => ?_) fun s₁ h₁ hsame => ?_))
  · obtain ⟨cells, hcells, hvs⟩ := Except.bind_eq_ok.mp hvs
    obtain rfl := Except.ok.inj hvs
    refine ⟨fun _ => Value.nodup_groups _, ?_⟩
    exact known_of_groups (Drawn.of_ids (e := .vertex) hsources hcells).known
  · refine .insertIds .edge h₁ htables (by simp) (fun hne => ?_) (fun vs hvs => ?_) fun _ h _ => h
    · have hother := tables.folded_part_ne hne (show Element.edge ≠ .vertex by decide)
      exact hsame _ (by simpa using hother)
    · obtain ⟨_, hvs⟩ := Except.guard_eq_ok.mp hvs
      obtain ⟨rows, hrows, hvs⟩ := Except.bind_eq_ok.mp hvs
      obtain rfl := Except.ok.inj hvs
      refine ⟨fun hunique => nodup_leastOfGroups hunique hrows, fun v hv => ?_⟩
      exact (annotated_of_leastOfGroups hrows v hv).known

theorem createEmptyMetadata_leaves {name : String} :
    Leaves (env.Write s.database (.make (.metadata name))) (env.createEmptyMetadata name) s := by
  unfold createEmptyMetadata
  refine .bind (.ofExcept (.refl s) fun tables htables => ?_)
  refine .leaves (.bind (.createTable (.metadata name) .vertex (.refl s) htables fun s₁ h₁ => ?_))
  exact .createTable (.metadata name) .edge h₁ htables fun _ => id

theorem overwriteMetadata_leaves {name lhs rhs : String} :
    Leaves (env.Write s.database (.overwrite name)) (env.overwriteMetadata name lhs rhs) s := by
  unfold overwriteMetadata
  refine .bind (.ofExcept (.refl s) fun tables htables => ?_)
  refine .bind (.ofExcept (.refl s) fun lefts _ => .bind (.ofExcept (.refl s) fun rights _ => ?_))
  refine .leaves (.bind (.overwriteTable .vertex (.refl s) htables fun s₁ h₁ => ?_))
  exact .overwriteTable .edge h₁ htables fun _ => id

/-! ## Instructions that read -/

variable {g : GraphRef} {e : Element} {key : String}

theorem reads_presentValues : (env.presentValues g e key).reads (fun _ => True) s :=
  .bind reads_annotationColumns fun _ _ => .ite (.pure trivial)
    (.bind (.ofExcept fun _ _ => trivial) fun _ _ => .query fun _ _ => trivial)

theorem reads_statisticSize : (env.statisticSize g e key).reads (fun _ => True) s :=
  .bind reads_presentValues fun _ _ => .pure trivial

theorem reads_presentNumbers : (env.presentNumbers g e key).reads (fun _ => True) s :=
  .bind reads_presentValues fun _ _ => .pure trivial

theorem reads_mean [Summation] : (env.mean g e key).reads (fun _ => True) s :=
  .bind reads_presentNumbers fun _ _ => .pure trivial

theorem reads_standardDeviation [Summation]
    : (env.standardDeviation g e key).reads (fun _ => True) s := by
  refine .bind reads_presentNumbers fun numbers _ => ?_
  cases Number.deviation numbers with
  | ok x => exact .pure trivial
  | error e => exact ends.throw rfl

theorem reads_histogram : (env.histogram g e key).reads (fun _ => True) s :=
  .bind reads_statisticSize fun _ _ => .ite (.pure trivial)
    (.bind (.ofExcept fun _ _ => trivial) fun _ _ => .query fun _ _ => trivial)

theorem reads_distribution {bins : Int} :
    (env.distribution g e key bins).reads (fun _ => True) s :=
  .guard (.bind reads_presentNumbers fun _ _ => .ite (.pure trivial) (.guard (.pure trivial)))

theorem reads_describedKeys {keys : List String} :
    (env.describedKeys g e keys).reads (fun _ => True) s :=
  .bind (.ofExcept fun _ _ => trivial) fun _ _ =>
    .filterM fun _ _ => .query fun _ _ => trivial

theorem reads_description : (env.description g).reads (fun _ => True) s := by
  refine .bind reads_annotationColumns fun _ _ => .bind reads_annotationColumns fun _ _ => ?_
  cases g with
  | base => exact .pure trivial
  | named name =>
    exact .bind reads_describedKeys fun _ _ => .bind reads_describedKeys fun _ _ => .pure trivial

theorem reads_exported : (env.exported g e).reads (fun _ => True) s :=
  .bind (.ofExcept fun _ _ => trivial) fun _ _ => .query fun _ _ => trivial

theorem reads_exportVertices : (env.exportVertices g).reads (fun _ => True) s :=
  .bind reads_exported fun _ _ => .bind (.ofExcept fun _ _ => trivial) fun _ _ => .pure trivial

theorem reads_exportEdges : (env.exportEdges g).reads (fun _ => True) s :=
  .bind reads_exported fun _ _ => .bind (.ofExcept fun _ _ => trivial) fun _ _ => .pure trivial

end Environment

namespace Instruction

variable {env : Environment} {s : Store}

theorem writing_leaves {W : Database → Database → Prop} {m : Program Unit} (h : Leaves W m s) :
    Leaves W (writing m) s :=
  .bind (ends.mono h (fun _ _ h' => .pure h') fun _ => id)

/-- All that an instruction does to the database, it does by statements that it has access for. -/
theorem run_leaves [RegexLibrary] [Summation] (env : Environment) (i : Instruction) (s : Store) :
    Leaves (env.Writes s.database i) (i.run env) s := by
  have hwriting {a : Access} {m : Program Unit} (ha : a ∈ i.access?)
      (h : Leaves (env.Write s.database a) m s) :
      Leaves (env.Writes s.database i) (writing m) s :=
    writing_leaves (h.mono fun _ _ hw => ⟨a, ha, hw⟩)
  have hreading {α : Type} {m : Program α} {f : α → Answer} (h : m.reads (fun _ => True) s) :
      Leaves (env.Writes s.database i)
        (do return f (← m)) s :=
    (reads.bind h fun _ _ => .pure trivial).leaves (q := fun _ => True)
  cases i with
  | createEmpty target => exact hwriting rfl Environment.createEmpty_leaves
  | distinctify target source => exact hwriting rfl Environment.distinctify_leaves
  | union target source => exact hwriting rfl Environment.union_leaves
  | intersect target lhs rhs => exact hwriting rfl Environment.intersect_leaves
  | subtract target minuend subtrahend component =>
    exact hwriting rfl Environment.subtract_leaves
  | limit target source bound => exact hwriting rfl Environment.limit_leaves
  | insertGiven e target ids => exact hwriting rfl Environment.insertGiven_leaves
  | select e target subject predicate => exact hwriting rfl Environment.select_leaves
  | selectCarriers target subject keys => exact hwriting rfl Environment.selectCarriers_leaves
  | matchVertices target lhs rhs keys => exact hwriting rfl Environment.matchVertices_leaves
  | endpoints target subject endpoint => exact hwriting rfl Environment.endpoints_leaves
  | subgraph target subject skeleton => exact hwriting rfl Environment.subgraph_leaves
  | collapse target source fields => exact hwriting rfl Environment.collapse_leaves
  | adjacent target subject source direction => exact hwriting rfl Environment.lineage_leaves
  | lineage target subject start depth direction => exact hwriting rfl Environment.lineage_leaves
  | shortestPath target subject src dst maxDepth =>
    exact hwriting rfl Environment.shortestPath_leaves
  | simplePath target subject src dst maxDepth =>
    exact hwriting rfl Environment.simplePath_leaves
  | link target subject src dst maxDepth => exact hwriting rfl Environment.link_leaves
  | count g => exact hreading (f := fun n => .counts n.1 n.2) Environment.reads_count
  | statisticSize g e key => exact hreading Environment.reads_statisticSize
  | mean g e key => exact hreading Environment.reads_mean
  | standardDeviation g e key => exact hreading Environment.reads_standardDeviation
  | histogram g e key => exact hreading Environment.reads_histogram
  | distribution g e key bins => exact hreading Environment.reads_distribution
  | description g =>
    exact hreading (f := fun keys => .keys keys.1 keys.2) Environment.reads_description
  | exportVertices g => exact hreading Environment.reads_exportVertices
  | exportEdges g => exact hreading Environment.reads_exportEdges
  | createEmptyMetadata target => exact hwriting rfl Environment.createEmptyMetadata_leaves
  | overwriteMetadata target lhs rhs => exact hwriting rfl Environment.overwriteMetadata_leaves
  | setMetadata target component source name value => exact .throw (.refl s)

theorem run_after [RegexLibrary] [Summation] (env : Environment) (i : Instruction) (s : Store) :
    After (env.Writes s.database i) s ((i.run env).perform s).2 :=
  ends.always (ends.mono (i.run_leaves env s) (fun _ _ h => h.1) fun _ => id)

end Instruction
end Provenance
