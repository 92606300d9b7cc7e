-- SUMMARY: Instructions of which neither writes to a handle of the other commute.
import Provenance.Proofs.KeyedReads

/-!
# Independent instructions

What an instruction does depends on the annotation tables and on the tables of its own handles, and on
nothing else in the store. Two instructions of which neither writes to a handle of the other can
therefore be carried out in either order: each answers or fails as it does alone, and the tables and
the roles of the scratch tables left behind are the same in the end.
-/
namespace Provenance

open Program Store

namespace Instruction

/-- Neither instruction writes to a handle that the other is given. -/
structure Independent (i j : Instruction) : Prop where
  left : ∀ h ∈ i.target?, h ∉ j.handles
  right : ∀ h ∈ j.target?, h ∉ i.handles

theorem Independent.symm {i j : Instruction} (h : i.Independent j) : j.Independent i :=
  ⟨h.right, h.left⟩

end Instruction

namespace Environment

variable {env : Environment} {i j : Instruction} {db db' : Database} {s : Store}
  {annotation? : Element → Option Table} {name : String}

/-- The name is that of a table of one of the instruction's handles. -/
def Names (env : Environment) (i : Instruction) (name : String) : Prop :=
  ∃ h ∈ i.handles, ∃ tables e, env.tablesOf h = .ok tables ∧
    Name.folded name = Name.folded (tables.part e)

/-- Both databases have the given annotation tables, and the same tables of the instruction's
handles. -/
structure SameFor (env : Environment) (i : Instruction) (annotation? : Element → Option Table)
    (db db' : Database) : Prop where
  left : ∀ e, db.find? (env.schema.annotationTable e) = annotation? e
  right : ∀ e, db'.find? (env.schema.annotationTable e) = annotation? e
  named : ∀ name, env.Names i name → db.find? name = db'.find? name

/-- A table of the instruction, under one name in both runs. -/
def SameTable (env : Environment) (i : Instruction) (_ : Element) (table table' : String) : Prop :=
  table = table' ∧ env.Names i table

/-- The same restriction, if any. -/
def SameRestriction (env : Environment) (i : Instruction) (_ : Element)
    (table? table?' : Option String) : Prop :=
  table? = table?' ∧ ∀ table ∈ table?, env.Names i table

theorem names_part {h : Handle} {tables : TablePair} (hh : h ∈ i.handles)
    (htables : env.tablesOf h = .ok tables) (e : Element) : env.Names i (tables.part e) :=
  ⟨h, hh, tables, e, htables, rfl⟩

theorem sameAnnotations_of_sameFor (e : Element) :
    env.SameAnnotations (env.SameFor i annotation?) (env.SameTable i e) (env.SameRestriction i e) e
      (fun _ => True) where
  part h := ⟨congrArg some h.1, by simpa using h.2⟩
  find? hR := (hR.left e).trans (hR.right e).symm
  columns _ _ := trivial
  restrict {db db' table? table?' t rows} hR hS _ _ := by
    obtain ⟨rfl, hnames⟩ := hS
    cases table? with
    | none => rfl
    | some table =>
      have hids : env.schema.ids db table = env.schema.ids db' table :=
        Schema.ids_congr (hR.named table (hnames table rfl))
      simp only [restrict, hids]

theorem reflects_of_sameFor :
    env.Reflects (env.SameFor i annotation?) (fun _ => False) (env.SameTable i)
      (env.SameRestriction i) :=
  reflects_of_sameAnnotations sameAnnotations_of_sameFor ⟨rfl, by simp⟩
    (Value.ordered_of_texts fun _ h => h.elim) (fun _ h => h.elim)
    (fun hR hT => by
      obtain ⟨rfl, hnames⟩ := hT
      exact (Except.Alike.of_eq (Schema.ids_congr (hR.named _ hnames))).mono fun _ _ => .of_eq)
    (fun hR hT => by
      obtain ⟨rfl, hnames⟩ := hT
      refine (Except.Alike.of_eq ?_).mono fun _ _ heq => by rw [heq]
      simp only [Database.table, hR.named _ hnames])
    fun _ _ _ _ _ h => h.elim

/-- A graph is its own counterpart. -/
theorem counterparts_of_source {g : GraphRef} (hg : .graph g ∈ i.sources) :
    env.Counterparts (env.SameTable i) (env.SameRestriction i) g g := by
  have hhandle : .graph g ∈ i.handles := List.mem_append_right _ hg
  refine ⟨?_, fun e => ?_⟩
  · cases htables : env.resolve g with
    | ok tables => exact .ok fun e => ⟨rfl, names_part hhandle htables e⟩
    | error e => exact .error e
  · cases g with
    | base => exact .ok ⟨rfl, by simp⟩
    | named name =>
      unfold restriction?
      dsimp only
      cases htables : env.resolve (.named name) with
      | ok tables =>
        refine .ok ⟨rfl, fun table htable => ?_⟩
        obtain rfl := Option.some.inj htable
        exact names_part hhandle htables e
      | error e => exact .error e

/-- The tables of a handle that is not the base graph are written to in both runs. -/
theorem shared_of_handle (hapart : env.Apart) {h : Handle} {tables : TablePair} (hh : h ∈ i.handles)
    (hbase : h ≠ .graph .base) (htables : env.tablesOf h = .ok tables) (e : Element) :
    Database.Shared (env.SameFor i annotation?) (tables.part e) := by
  have hbase (e' : Element) :
      Name.folded (env.schema.annotationTable e') ≠ Name.folded (tables.part e) := by
    have hpart := hapart _ _ _ _ hbase.symm (rfl : env.tablesOf (.graph .base) = .ok _) htables e' e
    cases e' <;> exact hpart
  refine ⟨fun hR => hR.named _ (names_part hh htables e), fun t hR => ⟨fun e' => ?_, fun e' => ?_,
    fun name hname => ?_⟩, fun hR => ⟨fun e' => ?_, fun e' => ?_, fun name hname => ?_⟩⟩
  · rw [Database.find?_put, if_neg (hbase e'), hR.left]
  · rw [Database.find?_put, if_neg (hbase e'), hR.right]
  · rw [Database.find?_put, Database.find?_put, hR.named name hname]
  · rw [Database.find?_drop, if_neg (hbase e'), hR.left]
  · rw [Database.find?_drop, if_neg (hbase e'), hR.right]
  · rw [Database.find?_drop, Database.find?_drop, hR.named name hname]

/-- An instruction goes alike wherever it finds the same annotations and the same tables of its
handles. -/
theorem run_alike_of_sameFor [RegexLibrary] [Summation]
    (hapart : env.Apart) (i : Instruction) (o : Origin) :
    Program.Alike (env.SameFor i annotation?) o .idle (· = ·) (i.run env) (i.run env) := by
  have hshared {h : Handle} {tables : TablePair} (hmem : h ∈ i.handles)
      (htables : env.writableTables h = .ok tables) (e : Element) :
      Database.Shared (env.SameFor i annotation?) (tables.part e) := by
    refine shared_of_handle hapart hmem ?_ (tablesOf_of_writable htables) e
    rintro rfl
    cases htables
  refine Instruction.run_alike_of_sameAnnotations sameAnnotations_of_sameFor reflects_of_sameFor
    (.refl fun g => counterparts_of_source) (fun target htarget tables htables e => ?_)
    (fun _ target htarget tables htables e => ?_) (fun name hname tables htables e => ?_)
    (.inl fun _ _ _ hS => by rw [hS.1]) fun _ _ => rfl
  · exact (hshared (h := .graph target) (Instruction.mem_handles_of_target htarget) htables e).takes env
  · exact (hshared (Instruction.mem_handles_of_target htarget) htables e).remade
  · exact hshared (h := .metadata name) (Instruction.mem_handles_of_metadata hname) htables e

/-! ## One instruction after the other -/

/-- The annotations and the tables of an instruction are left alone by one that is independent of
it. -/
theorem sameFor_run [RegexLibrary] [Summation]
    (hapart : env.Apart) (hij : i.Independent j) (s : Store) :
    env.SameFor j (fun e => s.database.find? (env.schema.annotationTable e)) s.database
      ((i.run env).perform s).2.database := by
  have hframe := framed_of_writes hapart (i.run_after env s).database
  refine ⟨fun _ => rfl, hframe.annotations, fun name hname => ?_⟩
  obtain ⟨h, hh, tables, e, htables, hname⟩ := hname
  have hother : i.target? ≠ some h := fun htarget => hij.left h htarget hh
  have hsame := hframe.others h tables e hother htables
  simp only [Database.find?, ← hname] at hsame
  exact hsame.symm

theorem sameFor_refl (env : Environment) (i : Instruction) (db : Database) :
    env.SameFor i (fun e => db.find? (env.schema.annotationTable e)) db db :=
  ⟨fun _ => rfl, fun _ => rfl, fun _ _ => rfl⟩

theorem scratchStem_issue [RegexLibrary] [Summation]
    (hapart : env.Apart) (hfresh : s.FreshRequests) (i : Instruction) :
    (env.issue s i).scratchStem = s.scratchStem := by
  let o : Origin := ⟨s.scratchStem, s.scratch.map (·.role), s.scratch.map (·.role)⟩
  have hstart : Twins _ o .idle s s :=
    ⟨sameFor_refl env i s.database, rfl, rfl, hfresh, hfresh, [], by simp [o], by simp [o]⟩
  exact (run_alike_of_sameFor hapart i o s s hstart).2.stem

/-- After an instruction that is independent of it, an instruction goes as it does without. -/
theorem twins_issue [RegexLibrary] [Summation]
    (hapart : env.Apart) (hfresh : s.FreshRequests) (hij : i.Independent j) :
    env.outcome (env.issue s i) j = env.outcome s j ∧
      Twins (env.SameFor j fun e => s.database.find? (env.schema.annotationTable e))
        ⟨s.scratchStem, s.scratch.map (·.role), (env.issue s i).scratch.map (·.role)⟩ .idle
        (env.issue s j) (env.issue (env.issue s i) j) := by
  let o : Origin :=
    ⟨s.scratchStem, s.scratch.map (·.role), (env.issue s i).scratch.map (·.role)⟩
  have hfresh' : (env.issue s i).FreshRequests := (i.run_after env s).fresh hfresh
  have hstart : Twins _ o .idle s (env.issue s i) :=
    ⟨sameFor_run hapart hij s, rfl, scratchStem_issue hapart hfresh i, hfresh, hfresh', [],
      by simp [o], by simp [o]⟩
  obtain ⟨houtcome, htwins⟩ := run_alike_of_sameFor hapart j o s (env.issue s i) hstart
  exact ⟨houtcome.eq.symm, htwins⟩

/-- A table that an instruction does not write to stays. -/
theorem find?_issue_of_other [RegexLibrary] [Summation] {name : String}
    (hother : ∀ h ∈ i.target?, ∀ tables e, env.tablesOf h = .ok tables →
      Name.folded name ≠ Name.folded (tables.part e)) (s : Store) :
    (env.issue s i).database.find? name = s.database.find? name := by
  apply Writes.find?_eq (i.run_after env s).database
  intro a ha tables htables e
  exact hother a.target (by simp [Instruction.target?, Option.mem_def.mp ha]) tables e
    (tablesOf_of_writable htables)

/-- In either order the tables of an instruction's target are as it alone leaves them. -/
theorem find?_issue_issue [RegexLibrary] [Summation]
    (hapart : env.Apart) (hfresh : s.FreshRequests) (hij : i.Independent j)
    {h : Handle} (htarget : h ∈ i.target?) {tables : TablePair} (htables : env.tablesOf h = .ok tables)
    {name : String} {e : Element} (hname : Name.folded name = Name.folded (tables.part e)) :
    (env.issue (env.issue s i) j).database.find? name =
      (env.issue (env.issue s j) i).database.find? name := by
  have hh : h ∈ i.handles := Instruction.mem_handles_of_target htarget
  have halone := (twins_issue hapart hfresh hij.symm).2.database.named name
    ⟨h, hh, tables, e, htables, hname⟩
  refine (find?_issue_of_other (fun h' hh' tables' e' htables' => ?_) _).trans halone
  have hne : h ≠ h' := fun heq => hij.right h' hh' (heq ▸ hh)
  exact hname ▸ hapart h h' tables tables' hne htables htables' e e'

/-- Independent instructions commute: each goes as it does alone, and in either order they leave the same
tables and as many scratch tables of each role. -/
theorem independent_commute [RegexLibrary] [Summation]
    (hapart : env.Apart) (hfresh : s.FreshRequests)
    (hij : i.Independent j) :
    env.outcome (env.issue s i) j = env.outcome s j ∧
      env.outcome (env.issue s j) i = env.outcome s i ∧
      (∀ name, (env.issue (env.issue s i) j).database.find? name =
        (env.issue (env.issue s j) i).database.find? name) ∧
      ((env.issue (env.issue s i) j).scratch.map (·.role)).Perm
        ((env.issue (env.issue s j) i).scratch.map (·.role)) := by
  obtain ⟨houtcome, htwins⟩ := twins_issue hapart hfresh hij
  obtain ⟨houtcome', htwins'⟩ := twins_issue hapart hfresh hij.symm
  refine ⟨houtcome, houtcome', fun name => ?_, ?_⟩
  · by_cases hi : ∃ h ∈ i.target?, ∃ tables e, env.tablesOf h = .ok tables ∧
        Name.folded name = Name.folded (tables.part e)
    · obtain ⟨h, hh, tables, e, htables, hname⟩ := hi
      exact find?_issue_issue hapart hfresh hij hh htables hname
    by_cases hj : ∃ h ∈ j.target?, ∃ tables e, env.tablesOf h = .ok tables ∧
        Name.folded name = Name.folded (tables.part e)
    · obtain ⟨h, hh, tables, e, htables, hname⟩ := hj
      exact (find?_issue_issue hapart hfresh hij.symm hh htables hname).symm
    -- neither of them writes to the table
    have hstays {i : Instruction} (hi : ¬ ∃ h ∈ i.target?, ∃ tables e,
        env.tablesOf h = .ok tables ∧ Name.folded name = Name.folded (tables.part e)) (s : Store) :
        (env.issue s i).database.find? name = s.database.find? name :=
      find?_issue_of_other (fun h hh tables e htables hname =>
        hi ⟨h, hh, tables, e, htables, hname⟩) s
    rw [hstays hj, hstays hi, hstays hi, hstays hj]
  · obtain ⟨_, _, left, hleft, hboth⟩ := htwins.scratch
    obtain ⟨_, _, left', hleft', hboth'⟩ := htwins'.scratch
    simp only at hleft hboth hleft' hboth'
    rw [hboth, hboth', hleft, hleft', List.append_assoc, List.append_assoc]
    exact List.perm_append_comm.append_left _

/-- Adds the endpoints of edges; without a table of edges it stops on the way. -/
def endpointsToNowhere : Instruction := .endpoints (.named "dst") (.named "src") .both

/-- A union and an instruction that fails midway, in a store with a left-over scratch table. -/
theorem independent_commute_leftOver :
    SmallWorld.environment.Apart ∧ leftOver.FreshRequests ∧
      (Instruction.union (.named "out") (.named "src")).Independent endpointsToNowhere ∧
      SmallWorld.environment.outcome (SmallWorld.environment.issue leftOver
        (.union (.named "out") (.named "src"))) endpointsToNowhere =
          SmallWorld.environment.outcome leftOver endpointsToNowhere ∧
      ∀ name, (SmallWorld.environment.issue (SmallWorld.environment.issue leftOver
          (.union (.named "out") (.named "src"))) endpointsToNowhere).database.find? name =
        (SmallWorld.environment.issue (SmallWorld.environment.issue leftOver endpointsToNowhere)
          (.union (.named "out") (.named "src"))).database.find? name := by
  have hapart : SmallWorld.environment.Apart := apart_of_pairwise (by decide)
  have hfresh : leftOver.FreshRequests := by simp [Store.FreshRequests, leftOver]
  have hij : (Instruction.union (.named "out") (.named "src")).Independent endpointsToNowhere :=
    ⟨by decide, by decide⟩
  obtain ⟨houtcome, _, htables, _⟩ := independent_commute hapart hfresh hij
  exact ⟨hapart, hfresh, hij, houtcome, htables⟩

end Environment
end Provenance
