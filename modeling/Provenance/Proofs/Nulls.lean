-- SUMMARY: Instructions that put no null into a graph.
import Provenance.Proofs.Runs
import Provenance.Proofs.Retrace

/-!
# Nulls among the ids of graphs

Where no id of the base graph is null, the instructions of this module put no null into a graph,
whatever ends its edges have. Ids that lie in a graph or differ from all of its ids are not null;
but where there is nothing to compare with, a null differs from it too. Searches compare what they
arrive at with what they have reached, and they have reached something wherever they have something
to go on from.
-/
namespace Provenance

open Program Store

theorem Affinity.store_eq_null {a : Affinity} {v : Value} : a.store v = .null ↔ v = .null := by
  constructor
  · intro h
    cases v with
    | null => rfl
    | num n => cases a <;> cases n <;> cases h
    | text s =>
      cases a with
      | blob => cases h
      | text => cases h
      | integer | real | numeric =>
        simp only [store] at h
        split at h <;> cases h
  · rintro rfl
    exact store_null a

/-! ## Nulls among cells -/

namespace Cells

theorem null_notMem_within (c d : Cells) : .null ∉ (c.within d).values := by
  intro h
  obtain ⟨_, h⟩ := List.mem_filter.mp h
  exact (Value.memberOf_iff.mp h).1 (Affinity.store_null _)

/-- A null differs from all cells only if there are none. -/
theorem null_mem_without {c d : Cells} :
    .null ∈ (c.without d).values ↔ .null ∈ c.values ∧ d.values = [] := by
  simp [without, Value.absentFrom_iff, Affinity.store_null]

end Cells

theorem Schema.null_mem_scratchIds {schema : Schema} {vs : List Value} :
    .null ∈ (schema.scratchIds vs).values ↔ .null ∈ vs := by
  simp [scratchIds, Cells.ofValues, Affinity.store_eq_null]

theorem Table.null_mem_values_append {t : Table} {column : String} {vs : List Value}
    (h : t.has column = true) :
    .null ∈ (t.append (t.column column vs)).values column ↔
      .null ∈ t.values column ∨ .null ∈ vs := by
  simp [Table.values, Table.append, Table.column, Function.comp_def, Table.get_row_self h,
    Affinity.store_eq_null]

/-! ## Nulls in searches -/

namespace Frontier

/-- No null was reached, and something was, unless there is nothing to go on from. -/
structure Solid (f : Frontier) : Prop where
  reached : .null ∉ f.reached
  current : f.reached = [] → f.current = []

theorem solid_start {vs : List Value} (h : .null ∉ vs) : (start vs).Solid :=
  ⟨by simpa [start] using h, id⟩

theorem Solid.advance {f : Frontier} {arrived : List Value} (h : f.Solid)
    (hidle : f.current = [] → arrived = []) : (f.advance arrived).Solid := by
  have hnone : f.reached = [] → arrived = [] := fun hr => hidle (h.current hr)
  refine ⟨fun hnull => ?_, fun hr => (List.append_eq_nil_iff.mp hr).2⟩
  rcases List.mem_append.mp hnull with hnull | hnull
  · exact h.reached hnull
  · exact ((mem_current_advance h.reached hnone).mp hnull).2.1 rfl

/-- A search that goes on from current vertices only reaches no null. -/
theorem null_notMem_sweep {β : Type} {arrivals : Nat → Frontier → List Value}
    {notes : Nat → Frontier → List β} {vs : List Value} (h : .null ∉ vs)
    (hidle : ∀ i f, f.current = [] → arrivals i f = []) (n i : Nat) (noted : List β) :
    .null ∉ (sweep arrivals notes n i (start vs) noted).1.reached :=
  (loop_keeps (N := fun _ => True) (fun i _ hf => Solid.advance hf (hidle i _))
    (fun _ _ _ _ _ => trivial) (solid_start h) (fun _ _ => trivial) n i).1.reached

variable {vs : List Value} {arcs : List Arc}

theorem null_notMem_explore (h : .null ∉ vs) (way : Way) (n : Nat) :
    .null ∉ (explore way arcs n (.start vs) []).1.reached := by
  rw [explore_eq_sweep way arcs n 0]
  refine null_notMem_sweep h (fun _ f hf => ?_) n 0 []
  simp [reach, exits, hf, Value.memberOf, Value.isIn, Truth.selects]

theorem null_notMem_retrace (h : .null ∉ vs) (ways : List Way) (hops : List Hop) (budget n : Nat) :
    .null ∉ (retrace ways hops budget n 0 (.start vs) []).1.reached := by
  rw [retrace_eq_sweep]
  exact null_notMem_sweep h (fun _ _ => arrivals_of_idle) n 0 []

end Frontier

theorem Shortest.null_notMem_vertices {merged : Bool} {arcs : List Arc}
    {among : List Value → List Value} (h : ∀ vs, .null ∉ among vs) (destinations : List Value)
    (budget : Nat) : .null ∉ vertices merged arcs among destinations budget := by
  unfold vertices
  dsimp only
  rw [forward_eq_sweep _ _ _ _ _ []]
  refine Frontier.null_notMem_sweep (h _) (fun _ f hf => ?_) _ _ _
  simp [choices, hf, Value.memberOf, Value.isIn, Truth.selects]

/-! ## Scratch tables -/

namespace Program.ends

variable {α : Type} {s : Store} {Q : α → Store → Prop} {E : Store → Prop}

theorem scratch {request : Nat} {role : String} {Q : Unit → Store → Prop} (hE : E s)
    (hQ : ∀ s', s'.database = s.database → Q () s') :
    ends (Program.createScratch request role) Q E s := by
  unfold Program.createScratch
  refine .bind (.get (.guard hE (.ite (fun _ => ?_) fun _ => ?_)))
  · exact .set (hQ _ rfl)
  · exact .pure (hQ s rfl)

theorem scratches {request : Nat} {roles : List String} {Q : Unit → Store → Prop}
    (hE : ∀ s', s'.database = s.database → E s')
    (hQ : ∀ s', s'.database = s.database → Q () s') :
    ends (roles.forM (Program.createScratch request)) Q E s := by
  refine (forM (I := fun s' => s'.database = s.database) rfl fun role _ s' hs' =>
    .scratch hs' fun s'' hs'' => hs''.trans hs').mono (fun _ => hQ) hE

/-- What is said of the database only is not affected by the scratch tables around a body. -/
theorem aroundScratch {roles : List String} {body : Nat → Program α}
    (hQ : ∀ a s' s'', s''.database = s'.database → Q a s' → Q a s'')
    (h : ∀ request s₁, s₁.database = s.database → ends (body request) Q E s₁) :
    ends (Program.withScratch roles body) Q E s := by
  unfold Program.withScratch Program.newRequest Program.dropScratch
  refine .bind (.modifyGet (.bind ?_))
  refine (h s.requests { s with requests := s.requests + 1 } rfl).mono (fun a s₂ h₂ => ?_)
    fun _ => id
  exact .bind (.modifyGet (.pure (hQ a s₂ _ rfl h₂)))

end Program.ends

/-! ## Graphs without nulls -/

namespace Environment

/-- No id in the tables of a graph is null, the base graph among them. -/
def NullFree (env : Environment) (s : Store) : Prop :=
  ∀ g tables e t, env.resolve g = .ok tables → s.database.find? (tables.part e) = some t →
    .null ∉ t.values env.schema.idColumn

variable {env : Environment} {s s' : Store} {g target : GraphRef} {tables : TablePair}
  {e : Element} {t : Table} {name : String} {cells : Cells} {vs : List Value}
  {table? : Option String}

namespace NullFree

theorem of_database (h : env.NullFree s) (hs : s'.database = s.database) : env.NullFree s' := by
  unfold NullFree
  rw [hs]
  exact h

/-! ### What is read -/

theorem ids (h : env.NullFree s) (hg : env.resolve g = .ok tables)
    (hcells : env.schema.ids s.database (tables.part e) = .ok cells) : .null ∉ cells.values := by
  obtain ⟨t, ht, _, rfl⟩ := Schema.ids_eq_ok hcells
  exact h g tables e t hg ht

theorem annotated (h : env.NullFree s) {v : Value} (hv : env.IsAnnotated s.database e v) :
    v ≠ .null := by
  obtain ⟨cells, hcells, hv⟩ := hv
  have hnull : .null ∉ cells.values := by
    cases e with
    | vertex => exact h.ids (g := .base) (e := .vertex) rfl hcells
    | edge => exact h.ids (g := .base) (e := .edge) rfl hcells
  exact fun h => hnull (h ▸ hv)

theorem arc (h : env.NullFree s) {arcs : List Arc} (harcs : env.arcs s.database table? = .ok arcs)
    {a : Arc} (ha : a ∈ arcs) : a.id ≠ .null := by
  obtain ⟨rows, hrows, harcs⟩ := Except.bind_eq_ok.mp harcs
  obtain rfl := Except.ok.inj harcs
  obtain ⟨t, ht, hhas, hrestrict⟩ := rowsInScope_eq_ok hrows
  obtain ⟨r, hr, rfl⟩ := List.mem_map.mp ha
  have hid := annotated_of_row ht (hhas _ env.schema.idColumn_mem_reserved)
    (mem_of_restrict hrestrict hr)
  exact fun hnull => h.annotated hid (Affinity.store_eq_null.mp hnull)

theorem edgesWithin (h : env.NullFree s)
    (hcells : env.edgesWithin s.database table? vs = .ok cells) : .null ∉ cells.values := by
  obtain ⟨arcs, harcs, hcells⟩ := Except.bind_eq_ok.mp hcells
  obtain rfl := Except.ok.inj hcells
  rw [Schema.null_mem_scratchIds]
  intro hnull
  obtain ⟨a, ha, hid⟩ := List.mem_map.mp hnull
  exact h.arc harcs (List.mem_filter.mp ha).1 hid

/-! ### One statement -/

/-- Ids that are not null may be added to any table. -/
theorem insertColumn (h : env.NullFree s) {db : Database}
    (hdb : s.database.insertColumn name env.schema.idColumn vs = .ok db) (hvs : .null ∉ vs) :
    env.NullFree { s with database := db } := by
  obtain ⟨t, ht, hhas, rfl⟩ := Database.insertColumn_eq_ok hdb
  intro g tables e t' hg ht'
  rw [Database.find?_put] at ht'
  split at ht'
  · next hname =>
    obtain rfl := Option.some.inj ht'
    have hold : s.database.find? (tables.part e) = some t := by
      rw [← ht, Database.find?, Database.find?, hname]
    simp [Table.null_mem_values_append hhas, hvs, h g tables e t hg hold]
  · exact h g tables e t' hg ht'

theorem insertIds (h : env.NullFree s) {select : Database → Except Error (List Value)}
    (hselect : ∀ vs, select s.database = .ok vs → .null ∉ vs) :
    ends (env.schema.insertIds name select) (fun _ => env.NullFree) env.NullFree s := by
  unfold Schema.insertIds
  refine .update h fun db hdb => ?_
  obtain ⟨vs, hvs, hdb⟩ := Except.bind_eq_ok.mp hdb
  exact h.insertColumn hdb (hselect vs hvs)

theorem insertNewIds (h : env.NullFree s) {select : Database → Except Error Cells}
    (hselect : ∀ found, select s.database = .ok found → .null ∉ found.values) :
    ends (env.schema.insertNewIds name select) (fun _ => env.NullFree) env.NullFree s := by
  unfold Schema.insertNewIds
  refine h.insertIds fun vs hvs => ?_
  obtain ⟨present, _, hvs⟩ := Except.bind_eq_ok.mp hvs
  obtain ⟨found, hfound, hvs⟩ := Except.bind_eq_ok.mp hvs
  obtain rfl := Except.ok.inj hvs
  rw [Value.mem_groups, Cells.null_mem_without]
  exact fun hnull => hselect found hfound hnull.1

/-- Ids found before are added. -/
theorem insertFound (h : env.NullFree s) (hvs : .null ∉ vs) :
    ends (env.schema.insertNewIds name fun _ => return env.schema.scratchIds vs)
      (fun _ => env.NullFree) env.NullFree s := by
  refine h.insertNewIds fun found hfound => ?_
  obtain rfl := Except.ok.inj hfound
  rwa [Schema.null_mem_scratchIds]

theorem seeds (h : env.NullFree s) (hg : env.resolve g = .ok tables) :
    (env.seeds tables.vertices).reads (.null ∉ ·) s := by
  refine .query fun vs hvs => ?_
  obtain ⟨cells, hcells, hvs⟩ := Except.bind_eq_ok.mp hvs
  obtain rfl := Except.ok.inj hvs
  rw [Schema.null_mem_scratchIds]
  exact h.ids (e := .vertex) hg hcells

theorem arcsFor (h : env.NullFree s) {steps : Nat} :
    (env.arcsFor table? steps).reads (fun arcs => ∀ a ∈ arcs, a.id ≠ .null) s :=
  .ite (.pure (by simp)) (.query fun _ harcs _ => h.arc harcs)

end NullFree

theorem null_notMem_seedsAmong :
    (env.seedsAmong name).reads (fun among => ∀ vs, .null ∉ among vs) s := by
  refine .query fun among hamong vs => ?_
  obtain ⟨cells, _, hamong⟩ := Except.bind_eq_ok.mp hamong
  obtain rfl := Except.ok.inj hamong
  rw [Schema.null_mem_scratchIds]
  exact Cells.null_notMem_within _ _

/-- Ends of edges that are looked up among the vertices of a graph are not null. -/
theorem null_notMem_endsWithin {subjects skeletons : TablePair} {endpoint : Endpoint} :
    ((env.endpointColumns endpoint).mapM fun column => Program.query fun db => do
      let inside ← env.schema.ids db subjects.vertices
      return ((← env.endpointsIn db skeletons.edges column).within inside).values).reads
        (fun ends => .null ∉ ends.flatten) s := by
  refine (Program.reads.mapM (q := fun vs => .null ∉ vs) fun column _ => .query fun vs hvs =>
    ?_).mono fun ends hends hnull => ?_
  · obtain ⟨inside, _, hvs⟩ := Except.bind_eq_ok.mp hvs
    obtain ⟨cells, _, hvs⟩ := Except.bind_eq_ok.mp hvs
    obtain rfl := Except.ok.inj hvs
    exact Cells.null_notMem_within _ _
  · obtain ⟨vs, hvs, hnull⟩ := List.mem_flatten.mp hnull
    exact hends vs hvs hnull

/-! ## Instructions one by one -/

namespace NullFree

/-- Ids that a statement reads from a graph are copied. -/
theorem groups_ids (h : env.NullFree s) (hg : env.resolve g = .ok tables)
    (hvs : (do return Value.groups (← env.schema.ids s.database (tables.part e)).values) =
      Except.ok vs) : .null ∉ vs := by
  obtain ⟨cells, hcells, hvs⟩ := Except.bind_eq_ok.mp hvs
  obtain rfl := Except.ok.inj hvs
  rw [Value.mem_groups]
  exact h.ids hg hcells

theorem distinctify (h : env.NullFree s) {source : GraphRef} :
    ends (env.distinctify target source) (fun _ => env.NullFree) env.NullFree s := by
  unfold Environment.distinctify
  refine .bind (.ofExcept h fun tables _ => .bind (.ofExcept h fun sources hsources => ?_))
  rw [forBoth_eq_forM]
  exact .forM h fun e _ s' h' => h'.insertIds fun vs => h'.groups_ids hsources

theorem union (h : env.NullFree s) {source : GraphRef} :
    ends (env.union target source) (fun _ => env.NullFree) env.NullFree s := by
  unfold Environment.union
  refine .bind (.ofExcept h fun tables _ => .bind (.ofExcept h fun sources hsources => ?_))
  rw [forBoth_eq_forM]
  exact .forM h fun e _ s' h' => h'.insertNewIds fun found => h'.ids hsources

theorem intersect (h : env.NullFree s) {lhs rhs : GraphRef} :
    ends (env.intersect target lhs rhs) (fun _ => env.NullFree) env.NullFree s := by
  unfold Environment.intersect
  refine .bind (.ofExcept h fun tables _ => .bind (.ofExcept h fun lefts _ => ?_))
  refine .bind (.ofExcept h fun rights _ => ?_)
  rw [forBoth_eq_forM]
  refine .forM h fun e _ s' h' => h'.insertIds fun vs hvs => ?_
  obtain ⟨left, _, hvs⟩ := Except.bind_eq_ok.mp hvs
  obtain ⟨right, _, hvs⟩ := Except.bind_eq_ok.mp hvs
  obtain rfl := Except.ok.inj hvs
  rw [Value.mem_groups]
  exact Cells.null_notMem_within _ _

theorem subtract (h : env.NullFree s) {minuend subtrahend : GraphRef} {component : Component} :
    ends (env.subtract target minuend subtrahend component) (fun _ => env.NullFree) env.NullFree
      s := by
  unfold Environment.subtract
  refine .bind (.ofExcept h fun tables _ => .bind (.ofExcept h fun lefts hlefts => ?_))
  refine .bind (.ofExcept h fun rights _ => ?_)
  refine .forM h fun e _ s' h' => h'.insertIds fun vs hvs => ?_
  obtain ⟨left, hleft, hvs⟩ := Except.bind_eq_ok.mp hvs
  obtain ⟨right, _, hvs⟩ := Except.bind_eq_ok.mp hvs
  obtain rfl := Except.ok.inj hvs
  rw [Value.mem_groups, Cells.null_mem_without]
  exact fun hnull => h'.ids hlefts hleft hnull.1

theorem limit (h : env.NullFree s) {source : GraphRef} {bound : Int} :
    ends (env.limit target source bound) (fun _ => env.NullFree) env.NullFree s := by
  unfold Environment.limit
  refine .guard h (.bind (.ofExcept h fun tables _ => reads_count.bind_ends h fun sizes _ => ?_))
  refine .bind (.ofExcept h fun sources hsources => ?_)
  rw [forBoth_eq_forM]
  refine .forM h fun e _ s' h' => .ite (fun _ => h'.insertIds fun vs hvs => ?_) fun _ => .pure h'
  obtain ⟨_, hvs⟩ := Except.guard_eq_ok.mp hvs
  obtain ⟨cells, hcells, hvs⟩ := Except.bind_eq_ok.mp hvs
  obtain rfl := Except.ok.inj hvs
  exact fun hnull => h'.ids hsources hcells (Value.mem_groups.mp (List.mem_of_mem_take hnull))

theorem insertGiven (h : env.NullFree s) {ids : List String} :
    ends (env.insertGiven e target ids) (fun _ => env.NullFree) env.NullFree s := by
  unfold Environment.insertGiven
  refine .bind (.ofExcept h fun tables _ => .ite (fun _ => .pure h) fun _ => ?_)
  refine .aroundScratch (fun _ _ _ hs h' => h'.of_database hs) fun request s₁ hs₁ => ?_
  have h₁ := h.of_database hs₁
  refine .bind (.scratch h₁ fun s₂ hs₂ => (h₁.of_database hs₂).insertNewIds fun found hfound => ?_)
  obtain ⟨cells, _, hfound⟩ := Except.bind_eq_ok.mp hfound
  obtain rfl := Except.ok.inj hfound
  exact Cells.null_notMem_within _ _

theorem select [RegexLibrary] (h : env.NullFree s) {subject : GraphRef} {p : Option Predicate} :
    ends (env.select e target subject p) (fun _ => env.NullFree) env.NullFree s := by
  unfold Environment.select
  refine .bind (.ofExcept h fun tables _ => .bind (.ofExcept h fun subjects hsubjects => ?_))
  refine .bind (.ofExcept h fun table? _ => ?_)
  cases p with
  | none => exact h.insertIds fun vs => h.groups_ids hsubjects
  | some p =>
    refine reads_annotationColumns.bind_ends h fun columns _ => ?_
    refine .ite (fun _ => .pure h) fun _ => h.insertIds fun vs hvs => ?_
    obtain ⟨ids, hids, hvs⟩ := Except.bind_eq_ok.mp hvs
    obtain rfl := Except.ok.inj hvs
    rw [Value.mem_groups]
    exact fun hnull => h.annotated (annotated_of_idsMatching hids _ hnull) rfl

theorem selectCarriers (h : env.NullFree s) {subject : GraphRef} {keys : List String} :
    ends (env.selectCarriers target subject keys) (fun _ => env.NullFree) env.NullFree s := by
  unfold Environment.selectCarriers
  refine .bind (.ofExcept h fun tables _ => .bind (.ofExcept h fun subjects _ => ?_))
  refine reads_carriers.bind_ends h fun found hfound => ?_
  cases found with
  | none => exact .pure h
  | some ids =>
    refine h.insertIds fun vs hvs hnull => ?_
    exact h.annotated ((hfound ids rfl _ vs hvs).2 _ hnull) rfl

theorem insertMatched (h : env.NullFree s) {request : Nat} {left right : Cells}
    {keys : List String} :
    ends (do
        Program.createScratch request "pairs"
        Program.createScratch request "matched"
        let pairs ← Program.query fun db => env.agreeing db left right keys
        let target ← env.writable target
        env.schema.insertNewIds target.vertices fun _ =>
          return env.schema.scratchIds (pairs.map (·.1) ++ pairs.map (·.2)))
      (fun _ => env.NullFree) env.NullFree s := by
  refine .bind (.scratch h fun s₁ hs₁ => ?_)
  have h₁ := h.of_database hs₁
  refine .bind (.scratch h₁ fun s₂ hs₂ => ?_)
  have h₂ := h₁.of_database hs₂
  refine .bind (.query h₂ fun pairs hpairs => .bind (.ofExcept h₂ fun tables _ => ?_))
  refine h₂.insertFound fun hnull => ?_
  rcases List.mem_append.mp hnull with hnull | hnull
  · obtain ⟨pair, hpair, hid⟩ := List.mem_map.mp hnull
    exact h₂.annotated (annotated_of_agreeing hpairs pair hpair).1 hid
  · obtain ⟨pair, hpair, hid⟩ := List.mem_map.mp hnull
    exact h₂.annotated (annotated_of_agreeing hpairs pair hpair).2 hid

theorem matchVertices (h : env.NullFree s) {lhs rhs : GraphRef} {keys : List String} :
    ends (env.matchVertices target lhs rhs keys) (fun _ => env.NullFree) env.NullFree s := by
  unfold Environment.matchVertices
  refine .bind (.ofExcept h fun _ _ => ?_)
  refine .aroundScratch (fun _ _ _ hs h' => h'.of_database hs) fun request s₁ hs₁ => ?_
  have h₁ := h.of_database hs₁
  refine .bind (.scratch h₁ fun s₂ hs₂ => ?_)
  have h₂ := h₁.of_database hs₂
  refine .bind (.scratch h₂ fun s₃ hs₃ => ?_)
  have h₃ := h₂.of_database hs₃
  refine .bind (.ofExcept h₃ fun lefts _ => reads_carriers.bind_ends h₃ fun leftIds _ => ?_)
  cases leftIds with
  | none => exact .pure h₃
  | some leftIds =>
    refine .bind (.query h₃ fun left _ => .bind (.ofExcept h₃ fun rights _ => ?_))
    refine reads_carriers.bind_ends h₃ fun rightIds _ => ?_
    cases rightIds with
    | none => exact .bind (.pure h₃.insertMatched)
    | some rightIds => exact .bind (.query h₃ fun right _ => .bind (.pure h₃.insertMatched))

theorem subgraph (h : env.NullFree s) {subject skeleton : GraphRef} :
    ends (env.subgraph target subject skeleton) (fun _ => env.NullFree) env.NullFree s := by
  unfold Environment.subgraph
  refine .bind (.ofExcept h fun tables _ => .bind (.ofExcept h fun subjects _ => ?_))
  refine .bind (.ofExcept h fun skeletons _ => ?_)
  refine .aroundScratch (fun _ _ _ hs h' => h'.of_database hs) fun request s₁ hs₁ => ?_
  have h₁ := h.of_database hs₁
  refine .bind (.scratch h₁ fun s₂ hs₂ => ?_)
  have h₂ := h₁.of_database hs₂
  refine .bind (.query h₂ fun own hown => ?_)
  have hown : .null ∉ own := by
    obtain ⟨inside, _, hown⟩ := Except.bind_eq_ok.mp hown
    obtain ⟨cells, _, hown⟩ := Except.bind_eq_ok.mp hown
    obtain rfl := Except.ok.inj hown
    exact Cells.null_notMem_within _ _
  refine null_notMem_endsWithin.bind_ends h₂ fun ends hends => ?_
  refine .bind ((h₂.insertFound fun hnull => ?_).mono (fun _ s₃ h₃ => ?_) fun _ => id)
  · exact (List.mem_append.mp hnull).elim hown hends
  · refine h₃.insertNewIds fun found hfound => ?_
    obtain ⟨ids, _, hfound⟩ := Except.bind_eq_ok.mp hfound
    obtain ⟨inside, _, hfound⟩ := Except.bind_eq_ok.mp hfound
    obtain rfl := Except.ok.inj hfound
    exact Cells.null_notMem_within _ _

theorem collapse (h : env.NullFree s) {source : GraphRef} {fields : List String} :
    ends (env.collapse target source fields) (fun _ => env.NullFree) env.NullFree s := by
  unfold Environment.collapse
  refine .bind (.ofExcept h fun tables _ => ?_)
  refine reads_annotationColumns.bind_ends h fun existing _ => ?_
  refine .bind (.ofExcept h fun sources hsources => ?_)
  refine .bind ((h.insertIds fun vs => h.groups_ids (e := .vertex) hsources).mono
    (fun _ s' h' => h'.insertIds fun vs hvs hnull => ?_) fun _ => id)
  obtain ⟨_, hvs⟩ := Except.guard_eq_ok.mp hvs
  obtain ⟨rows, hrows, hvs⟩ := Except.bind_eq_ok.mp hvs
  obtain rfl := Except.ok.inj hvs
  exact h'.annotated (annotated_of_leastOfGroups hrows _ hnull) rfl

theorem lineageAlong (h : env.NullFree s) {request steps : Nat} {starts : TablePair}
    {edges? : Option String} {way : Way} (hstart : env.resolve g = .ok starts) :
    ends (env.lineageAlong request tables edges? starts.vertices steps way)
      (fun _ => env.NullFree) env.NullFree s := by
  unfold Environment.lineageAlong
  refine .bind (.scratches (fun _ => h.of_database) fun s₁ hs₁ => ?_)
  have h₁ := h.of_database hs₁
  refine (h₁.seeds hstart).bind_ends h₁ fun seeds hseeds => ?_
  refine h₁.arcsFor.bind_ends h₁ fun arcs harcs => ?_
  refine .bind ((h₁.insertFound (Frontier.null_notMem_explore hseeds way steps)).mono
    (fun _ s₂ h₂ => h₂.insertFound fun hnull => ?_) fun _ => id)
  obtain ⟨a, ha, hid⟩ := Frontier.mem_crossed_of_explore hnull
  exact harcs a ha hid

theorem lineage (h : env.NullFree s) {subject start : GraphRef} {depth : Int}
    {direction : Direction} :
    ends (env.lineage target subject start depth direction) (fun _ => env.NullFree) env.NullFree
      s := by
  unfold Environment.lineage
  refine .bind (.ofExcept h fun tables _ => .guard h (.bind (.ofExcept h fun edges? _ => ?_)))
  refine .bind (.ofExcept h fun starts hstart => ?_)
  refine .aroundScratch (fun _ _ _ hs h' => h'.of_database hs) fun request s₁ hs₁ => ?_
  exact .forM (h.of_database hs₁) fun way _ s₂ h₂ => h₂.lineageAlong hstart

theorem shortestPath (h : env.NullFree s) {subject src dst : GraphRef} {maxDepth : Int} :
    ends (env.shortestPath target subject src dst maxDepth) (fun _ => env.NullFree) env.NullFree
      s := by
  unfold Environment.shortestPath
  refine .bind (.ofExcept h fun tables _ => .guard h (.bind (.ofExcept h fun paths _ => ?_)))
  refine .aroundScratch (fun _ _ _ hs h' => h'.of_database hs) fun request s₁ hs₁ => ?_
  have h₁ := h.of_database hs₁
  refine .bind (.scratch h₁ fun s₂ hs₂ => ?_)
  have h₂ := h₁.of_database hs₂
  refine .bind (.query h₂ fun arcs _ => .bind (.scratch h₂ fun s₃ hs₃ => ?_))
  have h₃ := h₂.of_database hs₃
  refine .guard h₃ (.bind (.scratches (fun _ => h₃.of_database) fun s₄ hs₄ => ?_))
  have h₄ := h₃.of_database hs₄
  refine .bind (.query h₄ fun seeds _ => .bind (.scratches (fun _ => h₄.of_database)
    fun s₅ hs₅ => ?_))
  have h₅ := h₄.of_database hs₅
  refine null_notMem_seedsAmong.bind_ends h₅ fun among hamong => ?_
  exact .guard h₅ (.bind ((h₅.insertFound (Shortest.null_notMem_vertices hamong _ _)).mono
    (fun _ s₆ h₆ => h₆.insertNewIds fun _ => h₆.edgesWithin) fun _ => id))

theorem simplePath (h : env.NullFree s) {subject src dst : GraphRef} {maxDepth : Int} :
    ends (env.simplePath target subject src dst maxDepth) (fun _ => env.NullFree) env.NullFree
      s := by
  unfold Environment.simplePath
  refine .bind (.ofExcept h fun tables _ => .guard h (.bind (.ofExcept h fun paths _ => ?_)))
  refine .aroundScratch (fun _ _ _ hs h' => h'.of_database hs) fun request s₁ hs₁ => ?_
  have h₁ := h.of_database hs₁
  refine .bind (.scratches (fun _ => h₁.of_database) fun s₂ hs₂ => ?_)
  have h₂ := h₁.of_database hs₂
  refine .bind (.query h₂ fun seeds _ => h₂.arcsFor.bind_ends h₂ fun arcs harcs => ?_)
  refine null_notMem_seedsAmong.bind_ends h₂ fun among hamong => ?_
  have hreached : .null ∉ (directedWalks arcs among seeds maxDepth.toNat).1.reached :=
    Frontier.null_notMem_retrace (hamong _) _ _ _ _
  generalize directedWalks arcs among seeds maxDepth.toNat = found at hreached
  obtain ⟨f, stages⟩ := found
  refine .guard h₂ (.bind ((ends.forM h₂ fun stage _ s₃ h₃ => h₃.insertFound fun hnull => ?_).mono
    (fun _ s₃ h₃ => h₃.insertFound hreached) fun _ => id))
  obtain ⟨a, ha, hid⟩ := List.mem_map.mp hnull
  exact harcs a (List.mem_filter.mp ha).1 hid

theorem link (h : env.NullFree s) {subject src dst : GraphRef} {maxDepth : Int} :
    ends (env.link target subject src dst maxDepth) (fun _ => env.NullFree) env.NullFree s := by
  unfold Environment.link
  refine .bind (.ofExcept h fun tables _ => .ite (fun _ => .pure h) fun _ => ?_)
  refine .bind (.ofExcept h fun paths _ => ?_)
  refine .aroundScratch (fun _ _ _ hs h' => h'.of_database hs) fun request s₁ hs₁ => ?_
  have h₁ := h.of_database hs₁
  refine .bind (.scratches (fun _ => h₁.of_database) fun s₂ hs₂ => ?_)
  have h₂ := h₁.of_database hs₂
  refine .bind (.query h₂ fun seeds _ => h₂.arcsFor.bind_ends h₂ fun arcs _ => ?_)
  refine null_notMem_seedsAmong.bind_ends h₂ fun among hamong => ?_
  exact .guard h₂ (.bind ((h₂.insertFound (Frontier.null_notMem_retrace (hamong _) _ _ _ _)).mono
    (fun _ s₃ h₃ => h₃.insertNewIds fun _ => h₃.edgesWithin) fun _ => id))

end NullFree

end Environment
end Provenance
