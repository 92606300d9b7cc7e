-- SUMMARY: The checks that an instruction is refused by before anything is done.
import Provenance.Proofs.Runs

/-!
# Refused instructions

An instruction looks up its handles one after the other, its target first, and tests its bounds on
the way. All of this comes before anything is done, so that an instruction with an unknown handle is
refused and leaves the store as it was. `checks` lists the tests in order; of several that fail the
first is answered. An instruction that has nothing to look for, however, answers so without asking
for the graphs that it would have read.
-/
namespace Except

def error? {ε α : Type} : Except ε α → Option ε
  | ok _ => none
  | error e => some e

theorem exists_ok {ε α : Type} {x : Except ε α} (h : x.error? = none) : ∃ a, x = .ok a := by
  cases x with
  | ok a => exact ⟨a, rfl⟩
  | error e => cases h

end Except

namespace Provenance

open Program Store

/-! ## Checks at the beginning of a program -/

namespace Program

variable {α β : Type} {s : Store}

/-- If one of the checks fails, then the program fails as the first of these does, and the store is
what it was. -/
def Refuses (m : Program α) (checks : List (Option Error)) (s : Store) : Prop :=
  ∀ e, checks.findSome? id = some e → m.perform s = (.error e, s)

namespace Refuses

variable {checks rest : List (Option Error)} {c : Option Error} {m : Program α}

theorem nothing : Refuses m [] s := fun _ h => by simp at h

/-- The check does not fail. -/
theorem pass (h : Refuses m rest s) : Refuses m (none :: rest) s :=
  fun e he => h e (by simpa using he)

theorem throw {e : Error} : Refuses (MonadExcept.throw e : Program α) (some e :: rest) s := by
  intro e' h
  obtain rfl : e = e' := by simpa using h
  rfl

theorem bind {f : α → Program β} (h : Refuses m checks s) : Refuses (m >>= f) checks s :=
  fun e he => perform_bind_of_error (h e he)

/-- What is read first makes no difference. -/
theorem after {f : α → Program β} {a : α} (hm : m.perform s = (.ok a, s))
    (h : Refuses (f a) checks s) : Refuses (m >>= f) checks s :=
  fun e he => (perform_bind_of_ok hm).trans (h e he)

/-- A lookup may make several checks. -/
theorem lookups {x : Except Error α} {f : α → Program β} (hx : x.error? = checks.findSome? id)
    (h : ∀ a, x = .ok a → Refuses (f a) rest s) :
    Refuses (MonadLiftT.monadLift x >>= f) (checks ++ rest) s := by
  intro e he
  rw [List.findSome?_append, ← hx] at he
  cases x with
  | ok a => exact (perform_bind_of_ok rfl).trans (h a rfl e he)
  | error e' =>
    obtain rfl : e' = e := Option.some.inj he
    exact perform_bind_of_error rfl

theorem lookup {x : Except Error α} {f : α → Program β} (hx : x.error? = c)
    (h : ∀ a, x = .ok a → Refuses (f a) rest s) :
    Refuses (MonadLiftT.monadLift x >>= f) (c :: rest) s := by
  have hone : x.error? = [c].findSome? id := by simpa using hx
  exact lookups hone h

theorem guard {c : Prop} [Decidable c] {e : Error} {f : β → Program α}
    (h : ¬ c → Refuses m rest s) :
    Refuses (if c then MonadExcept.throw e >>= f else m) ((if c then some e else none) :: rest)
      s := by
  by_cases hc : c
  · rw [if_pos hc, if_pos hc]
    exact throw.bind
  · rw [if_neg hc, if_neg hc]
    exact (h hc).pass

end Refuses
end Program

/-! ## What is checked -/

namespace Instruction

/-- The handles that an instruction is given besides its target, in the order in which it looks them
up. -/
def sources : Instruction → List Handle
  | distinctify _ source => [.graph source]
  | union _ source => [.graph source]
  | intersect _ lhs rhs => [.graph lhs, .graph rhs]
  | subtract _ minuend subtrahend _ => [.graph minuend, .graph subtrahend]
  | limit _ source _ => [.graph source]
  | select _ _ subject _ => [.graph subject]
  | selectCarriers _ subject _ => [.graph subject]
  | matchVertices _ lhs rhs _ => [.graph lhs, .graph rhs]
  | endpoints _ subject _ => [.graph subject]
  | subgraph _ subject skeleton => [.graph subject, .graph skeleton]
  | collapse _ source _ => [.graph source]
  | adjacent _ subject source _ => [.graph subject, .graph source]
  | lineage _ subject start _ _ => [.graph subject, .graph start]
  | shortestPath _ subject src dst _ => [.graph subject, .graph src, .graph dst]
  | simplePath _ subject src dst _ => [.graph subject, .graph src, .graph dst]
  | link _ subject src dst _ => [.graph subject, .graph src, .graph dst]
  | count graph => [.graph graph]
  | statisticSize graph _ _ => [.graph graph]
  | mean graph _ _ => [.graph graph]
  | standardDeviation graph _ _ => [.graph graph]
  | histogram graph _ _ => [.graph graph]
  | distribution graph _ _ _ => [.graph graph]
  | description graph => [.graph graph]
  | exportVertices graph => [.graph graph]
  | exportEdges graph => [.graph graph]
  | overwriteMetadata _ lhs rhs => [.metadata lhs, .metadata rhs]
  | setMetadata target _ source _ _ => [.metadata target, .graph source]
  | createEmpty _ => []
  | insertGiven _ _ _ => []
  | createEmptyMetadata _ => []

/-- All handles that an instruction is given. -/
def handles (i : Instruction) : List Handle := i.target?.toList ++ i.sources

theorem mem_handles_of_target {i : Instruction} {h : Handle} (hh : h ∈ i.target?) : h ∈ i.handles :=
  List.mem_append_left _ (Option.mem_toList.mpr hh)

theorem mem_handles_of_source {i : Instruction} {h : Handle} (hh : h ∈ i.sources) : h ∈ i.handles :=
  List.mem_append_right _ hh

/-- The handles that are looked up after the target and before anything is done. Those of graphs
whose vertices are matched come later. -/
def lookups : Instruction → List Handle
  | matchVertices _ _ _ _ => []
  | i => i.sources

theorem mem_sources_of_mem_lookups {i : Instruction} {h : Handle} (hh : h ∈ i.lookups) :
    h ∈ i.sources := by
  cases i with
  | matchVertices target lhs rhs keys => cases hh
  | _ => exact hh

/-- What is tested of the arguments before the target is looked up. -/
def earlyTests : Instruction → List (Option Error)
  | limit _ _ bound => [if bound < 0 then some (.negative .limit bound) else none]
  | distribution _ _ _ bins => [if bins ≤ 0 then some (.noBins bins) else none]
  | setMetadata _ _ _ _ _ => [some .metadataIsFixed]
  | _ => []

/-- What is tested of the arguments once the target is known. -/
def lateTests : Instruction → List (Option Error)
  | lineage _ _ _ depth _ => [if depth < 0 then some (.negative .depth depth) else none]
  | shortestPath _ _ _ _ maxDepth =>
    [if maxDepth < 0 then some (.negative .maxDepth maxDepth) else none]
  | simplePath _ _ _ _ maxDepth =>
    [if maxDepth < 0 then some (.negative .maxDepth maxDepth) else none]
  | _ => []

/-- The answer where there is nothing to look for. -/
def emptyAnswer : Instruction → Answer
  | statisticSize _ _ _ => .size 0
  | mean _ _ _ => .number none
  | standardDeviation _ _ _ => .number none
  | histogram _ _ _ => .histogram .empty
  | distribution _ _ _ _ => .distribution ⟨[]⟩
  | _ => .done

end Instruction

namespace Environment

/-- The annotation tables are there. -/
def Annotated (env : Environment) (db : Database) : Prop :=
  ∀ e, ∃ t, db.find? (env.schema.annotationTable e) = some t

/-- The annotations have a column for the key. -/
def HasColumn (env : Environment) (db : Database) (e : Element) (key : String) : Prop :=
  ∃ names, db.columnNames (env.schema.annotationTable e) = .ok names ∧ key ∈ names

/-- The instruction has nothing to look for: it connects vertices within no step, or it is about a
key without a column. What it writes to, or how it counts, is found to be right before. -/
def IsIdle (env : Environment) (db : Database) : Instruction → Prop
  | .link target _ _ _ maxDepth => maxDepth ≤ 0 ∧ ∃ tables, env.writable target = .ok tables
  | .statisticSize _ e key => ¬ env.HasColumn db e key
  | .mean _ e key => ¬ env.HasColumn db e key
  | .standardDeviation _ e key => ¬ env.HasColumn db e key
  | .histogram _ e key => ¬ env.HasColumn db e key
  | .distribution _ e key bins => 0 < bins ∧ ¬ env.HasColumn db e key
  | _ => False

/-- Everything that is checked before an instruction does anything, in this order. -/
def checks (env : Environment) (i : Instruction) : List (Option Error) :=
  i.earlyTests ++ (i.target?.toList.map fun h => (env.writableTables h).error?) ++
    i.lateTests ++ i.lookups.map fun h => (env.tablesOf h).error?

/-- The handle is not registered, and a lookup of it fails with this error. -/
inductive IsUnknown (env : Environment) : Handle → Error → Prop
  | graph {name : String} (h : env.graphs.find? name = none) :
      IsUnknown env (.graph (.named name)) (.unknownGraph name)
  | metadata {name : String} (h : env.metadata.find? name = none) :
      IsUnknown env (.metadata name) (.unknownMetadata name)

/-- Why an instruction is refused. -/
inductive Refusal (env : Environment) (i : Instruction) : Error → Prop
  | unknown {h : Handle} {e : Error} (hh : h ∈ i.handles) (hunknown : env.IsUnknown h e) :
      Refusal env i e
  | readOnly (hbase : i.target? = some (.graph .base)) : Refusal env i .readOnlyBase
  | argument {e : Error} (htest : some e ∈ i.earlyTests ++ i.lateTests) : Refusal env i e

variable {env : Environment} {s : Store}

/-! ## Annotation tables -/

/-- Where annotations have tables of their own, these stay. -/
theorem Annotated.issueAll [RegexLibrary] [Summation]
    (h : env.Annotated s.database) (hsorted : env.Sorted)
    (is : List Instruction) : env.Annotated (env.issueAll s is).database := by
  refine issueAll_keeps (P := fun s => env.Annotated s.database) h (fun s i hs e => ?_) is
  obtain ⟨t, ht⟩ := hs e
  have hfind := Writes.find?_eq (i.run_after env s).database
    fun a _ tables htables => hsorted.annotations a.target tables htables e
  exact ⟨t, hfind.trans ht⟩

theorem annotated_of_isBase {w : World} (h : w.IsBase env s.database) :
    env.Annotated s.database := by
  intro e
  cases e with
  | vertex =>
    obtain ⟨_, hr, t, ht, _⟩ := h.vertices
    obtain rfl := Except.ok.inj hr
    exact ⟨t, ht⟩
  | edge =>
    obtain ⟨t, ht, _⟩ := h.hasEdgeTable
    exact ⟨t, ht⟩

/-- The columns of the annotations can be read at any time. -/
theorem Annotated.exists_columns (h : env.Annotated s.database) (e : Element) :
    ∃ names, (env.annotationColumns e).perform s = (.ok names, s) ∧
      ∀ key, env.HasColumn s.database e key ↔ key ∈ names := by
  obtain ⟨t, ht⟩ := h e
  have hnames : s.database.columnNames (env.schema.annotationTable e) = .ok t.names := by
    simp [Database.columnNames, Database.table, ht]
  have hquery : (env.annotationColumns e).wp (fun names s' => names = t.names ∧ s' = s) s :=
    .query hnames ⟨rfl, rfl⟩
  obtain ⟨_, _, hrun, rfl, rfl⟩ := hquery
  exact ⟨_, hrun, fun key => by simp [HasColumn, hnames]⟩

/-! ## Lookups -/

theorem restriction?_error? (g : GraphRef) (e : Element) :
    (env.restriction? g e).error? = (env.resolve g).error? := by
  cases g with
  | base => rfl
  | named name =>
    simp only [restriction?]
    cases env.resolve (.named name) <;> rfl

theorem pathTables_error? (subject src dst : GraphRef) :
    (env.pathTables subject src dst).error? =
      [(env.resolve subject).error?, (env.resolve src).error?,
        (env.resolve dst).error?].findSome? id := by
  rw [← restriction?_error? subject .edge]
  simp only [pathTables]
  cases env.restriction? subject .edge <;> cases env.resolve src <;> cases env.resolve dst <;> rfl

/-- A lookup fails only because the handle is unknown. -/
theorem tablesOf_error?_eq_some {h : Handle} {e : Error} :
    (env.tablesOf h).error? = some e ↔ env.IsUnknown h e := by
  constructor
  · intro herror
    cases h with
    | graph g =>
      cases g with
      | base => cases herror
      | named name =>
        cases hfind : env.graphs.find? name with
        | none =>
          obtain rfl : Error.unknownGraph name = e := by
            simpa [tablesOf, resolve, hfind, Except.error?] using herror
          exact .graph hfind
        | some tables => simp [tablesOf, resolve, hfind, Except.error?] at herror
    | metadata name =>
      cases hfind : env.metadata.find? name with
      | none =>
        obtain rfl : Error.unknownMetadata name = e := by
          simpa [tablesOf, resolveMetadata, hfind, Except.error?] using herror
        exact .metadata hfind
      | some tables => simp [tablesOf, resolveMetadata, hfind, Except.error?] at herror
  · intro hunknown
    cases hunknown with
    | graph hfind => simp [tablesOf, resolve, hfind, Except.error?]
    | metadata hfind => simp [tablesOf, resolveMetadata, hfind, Except.error?]

/-- A target is looked up like any handle, but it may not be the base graph. -/
theorem writableTables_error? {h : Handle} (hbase : h ≠ .graph .base) :
    (env.writableTables h).error? = (env.tablesOf h).error? := by
  cases h with
  | graph g =>
    cases g with
    | base => exact absurd rfl hbase
    | named name => rfl
  | metadata name => rfl

/-! ## Instructions that read -/

variable {g : GraphRef} {e : Element} {key : String}

theorem count_refuses : Refuses (env.count g) [(env.resolve g).error?] s :=
  .lookup rfl fun _ _ => .nothing

theorem exported_refuses : Refuses (env.exported g e) [(env.resolve g).error?] s :=
  .lookup (restriction?_error? g e) fun _ _ => .nothing

theorem describedKeys_refuses {keys : List String} :
    Refuses (env.describedKeys g e keys) [(env.resolve g).error?] s :=
  .lookup (restriction?_error? g e) fun _ _ => .nothing

theorem description_refuses (h : env.Annotated s.database) :
    Refuses (env.description g) [(env.resolve g).error?] s := by
  obtain ⟨_, hvertices, _⟩ := h.exists_columns .vertex
  obtain ⟨_, hedges, _⟩ := h.exists_columns .edge
  refine .after hvertices (.after hedges ?_)
  cases g with
  | base => exact Refuses.nothing.pass
  | named name => exact describedKeys_refuses.bind

theorem presentValues_refuses (h : env.Annotated s.database)
    (hkey : env.HasColumn s.database e key) :
    Refuses (env.presentValues g e key) [(env.resolve g).error?] s := by
  obtain ⟨names, hnames, hcolumn⟩ := h.exists_columns e
  refine .after hnames ?_
  rw [if_neg (by simpa using (hcolumn key).mp hkey)]
  exact .lookup (restriction?_error? g e) fun _ _ => .nothing

theorem presentValues_of_noColumn (h : env.Annotated s.database)
    (hkey : ¬ env.HasColumn s.database e key) :
    (env.presentValues g e key).perform s = (.ok [], s) := by
  obtain ⟨names, hnames, hcolumn⟩ := h.exists_columns e
  refine (perform_bind_of_ok hnames).trans ?_
  rw [if_pos (by simpa [hcolumn] using hkey)]
  rfl

/-- Without any value that is present, the statistics are empty. -/
theorem statistics_of_noValue [RegexLibrary] [Summation]
    (hvalues : (env.presentValues g e key).perform s = (.ok [], s)) :
    ((Instruction.statisticSize g e key).run env).perform s = (.ok (.size 0), s) ∧
      ((Instruction.mean g e key).run env).perform s = (.ok (.number none), s) ∧
      ((Instruction.standardDeviation g e key).run env).perform s = (.ok (.number none), s) ∧
      ((Instruction.histogram g e key).run env).perform s = (.ok (.histogram .empty), s) ∧
      ∀ bins, 0 < bins → ((Instruction.distribution g e key bins).run env).perform s =
        (.ok (.distribution ⟨[]⟩), s) := by
  have hsize : (env.statisticSize g e key).perform s = (.ok 0, s) := perform_bind_of_ok hvalues
  have hnumbers : (env.presentNumbers g e key).perform s = (.ok [], s) := perform_bind_of_ok hvalues
  have hmean : (env.mean g e key).perform s = (.ok none, s) := perform_bind_of_ok hnumbers
  have hdeviation : (env.standardDeviation g e key).perform s = (.ok none, s) :=
    perform_bind_of_ok hnumbers
  have hhistogram : (env.histogram g e key).perform s = (.ok .empty, s) := perform_bind_of_ok hsize
  refine ⟨perform_bind_of_ok hsize, perform_bind_of_ok hmean, perform_bind_of_ok hdeviation,
    perform_bind_of_ok hhistogram, fun bins hbins => ?_⟩
  have hdistribution : (env.distribution g e key bins).perform s = (.ok ⟨[]⟩, s) := by
    unfold distribution
    rw [if_neg (not_le.mpr hbins)]
    exact perform_bind_of_ok hnumbers
  exact perform_bind_of_ok hdistribution

/-! ## Searches -/

variable {target subject src dst : GraphRef}

theorem lineage_refuses {start : GraphRef} {depth : Int} {direction : Direction} :
    Refuses (env.lineage target subject start depth direction)
      [(env.writable target).error?, if depth < 0 then some (.negative .depth depth) else none,
        (env.resolve subject).error?, (env.resolve start).error?] s :=
  .lookup rfl fun _ _ => .guard fun _ =>
    .lookup (restriction?_error? subject .edge) fun _ _ => .lookup rfl fun _ _ => .nothing

/-- One step is never too few. -/
theorem adjacent_refuses {source : GraphRef} {direction : Direction} :
    Refuses (env.adjacent target subject source direction)
      [(env.writable target).error?, (env.resolve subject).error?,
        (env.resolve source).error?] s := by
  refine .lookup rfl fun _ _ => ?_
  rw [if_neg (by decide)]
  exact .lookup (restriction?_error? subject .edge) fun _ _ => .lookup rfl fun _ _ => .nothing

theorem shortestPath_refuses {maxDepth : Int} :
    Refuses (env.shortestPath target subject src dst maxDepth)
      [(env.writable target).error?,
        if maxDepth < 0 then some (.negative .maxDepth maxDepth) else none,
        (env.resolve subject).error?, (env.resolve src).error?, (env.resolve dst).error?] s :=
  .lookup rfl fun _ _ => .guard fun _ =>
    .lookups (pathTables_error? subject src dst) fun _ _ => .nothing

theorem simplePath_refuses {maxDepth : Int} :
    Refuses (env.simplePath target subject src dst maxDepth)
      [(env.writable target).error?,
        if maxDepth < 0 then some (.negative .maxDepth maxDepth) else none,
        (env.resolve subject).error?, (env.resolve src).error?, (env.resolve dst).error?] s :=
  .lookup rfl fun _ _ => .guard fun _ =>
    .lookups (pathTables_error? subject src dst) fun _ _ => .nothing

theorem link_refuses {maxDepth : Int}
    (hidle : ¬ env.IsIdle s.database (.link target subject src dst maxDepth)) :
    Refuses (env.link target subject src dst maxDepth)
      [(env.writable target).error?, (env.resolve subject).error?, (env.resolve src).error?,
        (env.resolve dst).error?] s := by
  refine .lookup rfl fun tables htables => ?_
  rw [if_neg fun hdepth => hidle ⟨hdepth, tables, htables⟩]
  exact .lookups (pathTables_error? subject src dst) fun _ _ => .nothing

theorem link_of_noStep {maxDepth : Int} {tables : TablePair}
    (htables : env.writable target = .ok tables) (hdepth : maxDepth ≤ 0) :
    (env.link target subject src dst maxDepth).perform s = (.ok (), s) := by
  have hlink : (env.link target subject src dst maxDepth).wp (fun _ s' => s' = s) s := by
    refine .bind (.ofExcept htables ?_)
    rw [if_pos hdepth]
    exact .pure rfl
  obtain ⟨_, _, hrun, rfl⟩ := hlink
  exact hrun

end Environment

/-! ## All instructions -/

namespace Instruction

variable {env : Environment} {s : Store} {i : Instruction}

/-- What fails first is answered, and nothing has been done. -/
theorem run_refuses [RegexLibrary] [Summation]
    (h : env.Annotated s.database) (hidle : ¬ env.IsIdle s.database i) :
    Refuses (i.run env) (env.checks i) s := by
  cases i with
  | createEmpty target => exact .bind (.lookup rfl fun _ _ => .nothing)
  | distinctify target source =>
    exact .bind (.lookup rfl fun _ _ => .lookup rfl fun _ _ => .nothing)
  | union target source => exact .bind (.lookup rfl fun _ _ => .lookup rfl fun _ _ => .nothing)
  | intersect target lhs rhs =>
    exact .bind (.lookup rfl fun _ _ => .lookup rfl fun _ _ => .lookup rfl fun _ _ => .nothing)
  | subtract target minuend subtrahend component =>
    exact .bind (.lookup rfl fun _ _ => .lookup rfl fun _ _ => .lookup rfl fun _ _ => .nothing)
  | limit target source bound =>
    exact .bind (.guard fun _ => .lookup rfl fun _ _ => Environment.count_refuses.bind)
  | insertGiven e target ids => exact .bind (.lookup rfl fun _ _ => .nothing)
  | select e target subject predicate =>
    exact .bind (.lookup rfl fun _ _ => .lookup rfl fun _ _ => .nothing)
  | selectCarriers target subject keys =>
    exact .bind (.lookup rfl fun _ _ => .lookup rfl fun _ _ => .nothing)
  | matchVertices target lhs rhs keys => exact .bind (.lookup rfl fun _ _ => .nothing)
  | endpoints target subject endpoint =>
    exact .bind (.lookup rfl fun _ _ => .lookup rfl fun _ _ => .nothing)
  | subgraph target subject skeleton =>
    exact .bind (.lookup rfl fun _ _ => .lookup rfl fun _ _ => .lookup rfl fun _ _ => .nothing)
  | collapse target source fields =>
    obtain ⟨_, hcolumns, _⟩ := h.exists_columns .edge
    exact .bind (.lookup rfl fun _ _ => .after hcolumns (.lookup rfl fun _ _ => .nothing))
  | adjacent target subject source direction => exact Environment.adjacent_refuses.bind
  | lineage target subject start depth direction => exact Environment.lineage_refuses.bind
  | shortestPath target subject src dst maxDepth => exact Environment.shortestPath_refuses.bind
  | simplePath target subject src dst maxDepth => exact Environment.simplePath_refuses.bind
  | link target subject src dst maxDepth => exact (Environment.link_refuses hidle).bind
  | count g => exact Environment.count_refuses.bind
  | statisticSize g e key =>
    exact (Environment.presentValues_refuses h (not_not.mp hidle)).bind.bind
  | mean g e key =>
    exact (Environment.presentValues_refuses h (not_not.mp hidle)).bind.bind.bind
  | standardDeviation g e key =>
    exact (Environment.presentValues_refuses h (not_not.mp hidle)).bind.bind.bind
  | histogram g e key =>
    exact (Environment.presentValues_refuses h (not_not.mp hidle)).bind.bind.bind
  | distribution g e key bins =>
    refine .bind (.guard fun hbins => ?_)
    have hkey : env.HasColumn s.database e key := by
      by_contra hno
      exact hidle ⟨not_le.mp hbins, hno⟩
    exact (Environment.presentValues_refuses h hkey).bind.bind
  | description g => exact (Environment.description_refuses h).bind
  | exportVertices g => exact Environment.exported_refuses.bind.bind
  | exportEdges g => exact Environment.exported_refuses.bind.bind
  | createEmptyMetadata target => exact .bind (.lookup rfl fun _ _ => .nothing)
  | overwriteMetadata target lhs rhs =>
    exact .bind (.lookup rfl fun _ _ => .lookup rfl fun _ _ => .lookup rfl fun _ _ => .nothing)
  | setMetadata target component source name value => exact .throw

/-- With nothing to look for, nothing is done and nothing is found. -/
theorem run_of_isIdle [RegexLibrary] [Summation]
    (h : env.Annotated s.database) (hidle : env.IsIdle s.database i) :
    (i.run env).perform s = (.ok i.emptyAnswer, s) := by
  have hstatistics {g : GraphRef} {e : Element} {key : String}
      (hkey : ¬ env.HasColumn s.database e key) :=
    Environment.statistics_of_noValue (Environment.presentValues_of_noColumn (g := g) h hkey)
  cases i with
  | link target subject src dst maxDepth =>
    obtain ⟨hdepth, _, htables⟩ := hidle
    exact perform_bind_of_ok (Environment.link_of_noStep htables hdepth)
  | statisticSize g e key => exact (hstatistics hidle).1
  | mean g e key => exact (hstatistics hidle).2.1
  | standardDeviation g e key => exact (hstatistics hidle).2.2.1
  | histogram g e key => exact (hstatistics hidle).2.2.2.1
  | distribution g e key bins => exact (hstatistics hidle.2).2.2.2.2 bins hidle.1
  | _ => exact hidle.elim

end Instruction

/-! ## Unknown handles -/

namespace Environment

variable {env : Environment} {s : Store} {i : Instruction} {h : Handle} {err : Error}

/-- Whatever check fails, there is a reason to refuse the instruction. -/
theorem refusal_of_mem_checks (herr : some err ∈ env.checks i) : env.Refusal i err := by
  simp only [checks, List.mem_append, List.mem_map, Option.mem_toList] at herr
  rcases herr with ((hearly | ⟨target, htarget, herror⟩) | hlate) | ⟨h, hlookup, herror⟩
  · exact .argument (List.mem_append_left _ hearly)
  · by_cases hbase : target = .graph .base
    · subst hbase
      obtain rfl : Error.readOnlyBase = err := Option.some.inj herror
      exact .readOnly htarget
    · rw [writableTables_error? hbase] at herror
      refine .unknown (List.mem_append_left _ ?_) (tablesOf_error?_eq_some.mp herror)
      exact Option.mem_toList.mpr htarget
  · exact .argument (List.mem_append_right _ hlate)
  · have hsource := Instruction.mem_sources_of_mem_lookups hlookup
    exact .unknown (List.mem_append_right _ hsource) (tablesOf_error?_eq_some.mp herror)

/-- The check of an unknown handle fails. -/
theorem mem_checks_of_unknown (hh : h ∈ i.handles) (hunknown : env.IsUnknown h err)
    (hmatch : ∀ target lhs rhs keys, i = .matchVertices target lhs rhs keys → h = .graph target) :
    some err ∈ env.checks i := by
  have herror := tablesOf_error?_eq_some.mpr hunknown
  have hbase : h ≠ .graph .base := by
    rintro rfl
    cases hunknown
  have htarget (h' : i.target? = some h) : some err ∈ env.checks i := by
    simp [checks, h', writableTables_error? hbase, herror]
  rcases List.mem_append.mp hh with hh | hh
  · exact htarget (Option.mem_toList.mp hh)
  · have hlookup (h' : i.lookups = i.sources) : some err ∈ env.checks i := by
      rw [checks, h']
      exact List.mem_append_right _ (List.mem_map.mpr ⟨h, hh, herror⟩)
    cases i with
    | matchVertices target lhs rhs keys =>
      obtain rfl := hmatch _ _ _ _ rfl
      exact htarget rfl
    | _ => exact hlookup rfl

/-- An instruction with an unknown handle is refused, and nothing at all has changed, unless it has
nothing to look for. The graphs whose vertices are matched are not considered here. -/
theorem unknown_handle_changes_nothing [RegexLibrary] [Summation]
    (hannotated : env.Annotated s.database) (hh : h ∈ i.handles)
    (hunknown : env.IsUnknown h err)
    (hmatch : ∀ target lhs rhs keys, i = .matchVertices target lhs rhs keys → h = .graph target) :
    (¬ env.IsIdle s.database i ∧
      ∃ err', env.Refusal i err' ∧ (i.run env).perform s = (.error err', s)) ∨
    (env.IsIdle s.database i ∧ (i.run env).perform s = (.ok i.emptyAnswer, s)) := by
  by_cases hidle : env.IsIdle s.database i
  · exact .inr ⟨hidle, i.run_of_isIdle hannotated hidle⟩
  · refine .inl ⟨hidle, ?_⟩
    have hfails : ((env.checks i).findSome? id).isSome := by
      rw [List.findSome?_isSome_iff]
      exact ⟨_, mem_checks_of_unknown hh hunknown hmatch, rfl⟩
    obtain ⟨err', herr'⟩ := Option.isSome_iff_exists.mp hfails
    refine ⟨err', refusal_of_mem_checks ?_, i.run_refuses hannotated hidle err' herr'⟩
    obtain ⟨_, hmem, rfl⟩ := List.exists_of_findSome?_eq_some herr'
    exact hmem

/-- A search for paths from a graph that there is not. -/
def pathsFromNowhere : Instruction := .shortestPath (.named "g") .base (.named "nope") .base 3

/-- The search is refused also after others have been carried out. -/
theorem unknown_handle_changes_nothing_chain :
    Program.wp (do
      (SmallWorld.world ["a", "b", "c"] SmallWorld.chain).load oneGraph.schema
      oneGraph.createEmpty (.named "g"))
      (fun _ s₀ => ∃ s, s = oneGraph.issueAll s₀ [addVertex, searchFromGraph] ∧
        oneGraph.Annotated s.database ∧ .graph (.named "nope") ∈ pathsFromNowhere.handles ∧
        oneGraph.IsUnknown (.graph (.named "nope")) (.unknownGraph "nope") ∧
        ∃ err, oneGraph.Refusal pathsFromNowhere err ∧
          (pathsFromNowhere.run oneGraph).perform s = (.error err, s))
      SmallWorld.start := by
  refine wp_oneGraph.mono fun _ s₀ h => ?_
  have hannotated := (annotated_of_isBase h.1).issueAll oneGraph_sorted [addVertex, searchFromGraph]
  have hunknown : oneGraph.IsUnknown (.graph (.named "nope")) (.unknownGraph "nope") :=
    .graph (by decide)
  have hhandle : .graph (.named "nope") ∈ pathsFromNowhere.handles := by decide
  refine ⟨_, rfl, hannotated, hhandle, hunknown, ?_⟩
  have hmatch : ∀ target lhs rhs keys, pathsFromNowhere = .matchVertices target lhs rhs keys →
      Handle.graph (.named "nope") = .graph target := by simp [pathsFromNowhere]
  rcases unknown_handle_changes_nothing hannotated hhandle hunknown hmatch with h | h
  · exact h.2
  · exact h.1.elim

/-- A connection to a graph that there is not, within no step. -/
def linkToNowhere : Instruction := .link (.named "g") .base .base (.named "nope") 0

/-- The unknown graph is not asked for. -/
theorem linkToNowhere_not_refused :
    Program.wp (do
      (SmallWorld.world ["a", "b", "c"] SmallWorld.chain).load oneGraph.schema
      oneGraph.createEmpty (.named "g"))
      (fun _ s => .graph (.named "nope") ∈ linkToNowhere.handles ∧
        oneGraph.IsUnknown (.graph (.named "nope")) (.unknownGraph "nope") ∧
        ¬ ∃ err s', (linkToNowhere.run oneGraph).perform s = (.error err, s'))
      SmallWorld.start := by
  refine wp_oneGraph.mono fun _ s h => ⟨by decide, .graph (by decide), fun hfails => ?_⟩
  obtain ⟨err, s', hrun⟩ := hfails
  have hidle := linkToNowhere.run_of_isIdle (annotated_of_isBase h.1) ⟨le_refl 0, _, rfl⟩
  cases hidle.symm.trans hrun

end Environment
end Provenance
