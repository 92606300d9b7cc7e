-- SUMMARY: Selection by a key without a column against selection by a column of nulls.
import Provenance.Proofs.BaseCopy
import Provenance.Proofs.SchemaGrowth

/-!
# Absent keys

To select by a key without a column is to select by a column of nulls. The one exception is the test for
difference: an absent key differs from every value, so that all elements of the graph are selected,
while a null does not, so that none is.
-/
namespace Provenance

open Program Store

namespace Environment

variable {env : Environment} {e : Element} {key : String} {columns columns' : List Column}
  {s : Store} {db' : Database} {target g : GraphRef} {p : Predicate}

/-- The elements of a graph, each of them once, are added to the target. -/
def SelectsAll (env : Environment) (e : Element) (target g : GraphRef) (db db' : Database) : Prop :=
  ∃ tables table? rows, env.writable target = .ok tables ∧ env.restriction? g e = .ok table? ∧
    env.rowsInScope db e table? [env.schema.idColumn] = .ok rows ∧
    db.insertColumn (tables.part e) env.schema.idColumn
      (Value.groups (rows.map (·.get env.schema.idColumn))) = .ok db'

/-- An absent key differs from every value. -/
theorem wp_select_of_absent [RegexLibrary] (hbase : env.Readable s.database .base)
    (hready : env.Readable s.database target) (htarget : target ≠ .base)
    (hg : env.Readable s.database g) (hwildcard : p.isWildcard = false)
    (hoperator : p.operator = .notEqual)
    (habsent : ∀ t, s.database.find? (env.schema.annotationTable e) = some t → p.key ∉ t.names) :
    (env.select e target g (some p)).wp
      (fun _ s' => env.SelectsAll e target g s.database s'.database) s := by
  obtain ⟨table?, htable, hrestricts⟩ := hg.restriction? e
  obtain ⟨t, ht, hid⟩ := hbase.annotations e
  obtain ⟨rows, hrows⟩ := exists_restrict hid hrestricts
  have hnone : p.columnsIn t.names = [] := by
    rw [Predicate.columnsIn, hwildcard, if_neg (by decide), List.filter_eq_nil_iff]
    exact fun column hcolumn heq => habsent t ht (of_decide_eq_true heq ▸ hcolumn)
  have hids : env.idsMatching s.database e table? p (p.columnsIn t.names) =
      .ok (rows.map (·.get env.schema.idColumn)) := by
    rw [hnone]
    exact idsMatching_of_restrict ht hid htable (Sql.selectDepth_nil_le env.schema g) rfl hrows
  have hscope : env.rowsInScope s.database e table? [env.schema.idColumn] = .ok rows := by
    simp [rowsInScope, Database.tableWith_of_find? ht
      (show ∀ name ∈ [env.schema.idColumn], t.has name = true by simpa using hid), hrows]
  refine (wp_select_of_idsMatching hbase hready htarget hg ht htable (fun _ => hoperator)
    hids).mono fun _ _ hadded => ?_
  obtain ⟨tables, htables, hadded⟩ := hadded
  exact ⟨tables, table?, rows, htables, htable, hscope, hadded⟩

/-- Where nothing has a value for the key, a selection by it leaves all tables as they are. -/
theorem same_of_select [RegexLibrary] [Summation]
    (hblank : env.Blank s.database e key) (hwildcard : p.isWildcard = false)
    (hkey : p.key = key)
    (hcolumn : p.operator = .notEqual → ∀ t, s.database.find? (env.schema.annotationTable e) = some t →
      t.has key = true) :
    s.database.Same (env.issue s (.select e target g (some p))).database :=
  ends.always (.bind (ends.mono (select_of_blank hblank hwildcard hkey hcolumn)
    (fun _ _ hsame => .pure hsame) fun _ => id))

/-- An absent key selects what a column of nulls selects, except by the test for difference. By that,
the absent key selects everything, and the column selects nothing. The wildcard is a key like any other
here; with the column its statement must be within the limits of the engine, as it was without. -/
theorem absent_key_is_column_of_nulls [RegexLibrary] [Summation]
    (target g : GraphRef) (p : Predicate)
    (h : env.GetsKey e key columns columns')
    (hR : env.Grown e key columns columns' s.database db') (hfresh : s.FreshRequests)
    (hkey : p.key = key) :
    ((p.isWildcard = true → Sql.selectDepth env.schema g (columns.map (·.name)) ≤ Sql.depthLimit →
        Sql.selectDepth env.schema g (columns'.map (·.name)) ≤ Sql.depthLimit) →
      (p.isWildcard = false → p.operator ≠ .notEqual) →
      env.Grown e key columns columns' (env.issue s (.select e target g (some p))).database
        (env.issue { s with database := db' } (.select e target g (some p))).database) ∧
    (p.isWildcard = false → p.operator = .notEqual →
      (env.Readable s.database .base → env.Readable s.database target → target ≠ .base →
        env.Readable s.database g → env.SelectsAll e target g s.database
          (env.issue s (.select e target g (some p))).database) ∧
      db'.Same (env.issue { s with database := db' } (.select e target g (some p))).database) := by
  have habsent : ∀ t, s.database.find? (env.schema.annotationTable e) = some t → p.key ∉ t.names := by
    intro t ht
    obtain ⟨t₀, _, ht₀, _, hgrown⟩ := hR.grown
    obtain rfl : t = t₀ := Option.some.inj (ht.symm.trans ht₀)
    rw [hkey, Table.names, hgrown.columns]
    exact h.added.fresh
  have hcolumn : ∀ t, db'.find? (env.schema.annotationTable e) = some t → t.has key = true := by
    intro t ht
    obtain ⟨_, t₀, _, ht₀, hgrown⟩ := hR.grown
    obtain rfl : t = t₀ := Option.some.inj (ht.symm.trans ht₀)
    rw [Table.has, List.contains_iff_mem, Table.names, hgrown.columns']
    exact h.added.mem_key
  have hnulls (hwildcard : p.isWildcard = false) :
      db'.Same (env.issue { s with database := db' } (.select e target g (some p))).database :=
    same_of_select (s := { s with database := db' }) (hR.blank' rfl) hwildcard hkey fun _ => hcolumn
  refine ⟨fun hfits hoperator => ?_, fun hwildcard hoperator => ⟨?_, hnulls hwildcard⟩⟩
  · cases hwildcard : p.isWildcard with
    | true =>
      have hp : p.isWildcard = true ∨ p.key ≠ key := .inl hwildcard
      exact (Alike.same_start hfresh hR (.writing (select_alike_of_grown h id rfl
        (fun tables _ e' => takes_of_grown h (tables.part e')) hp
        (selectDepth_le_of_added h.added hp hfits)))).2.1
    | false =>
      exact Grown.of_same hR (same_of_select (hR.blank h rfl) hwildcard hkey fun hop =>
        absurd hop (hoperator hwildcard)) (hnulls hwildcard)
  · intro hbase hready htarget hg
    obtain ⟨_, s', hrun, hall⟩ := wp_select_of_absent hbase hready htarget hg hwildcard hoperator
      habsent
    rw [issue, Instruction.run, Instruction.writing, perform_bind_of_ok hrun]
    exact hall

end Environment

namespace SmallWorld

/-- The vertices of the world whose key compares so with a value. -/
def byKey (operator : Operator) : Instruction :=
  .select .vertex (.named "out") .base (some ⟨"k", operator, "v"⟩)

/-- To be greater than a value takes a value, and to differ from it takes none. -/
theorem absent_key_is_column_of_nulls_copied :
    environment.GetsKey .vertex "k" (environment.schema.listing [] []).columns
        (environment.schema.listing ["k"] []).columns ∧
      environment.Grown .vertex "k" (environment.schema.listing [] []).columns
        (environment.schema.listing ["k"] []).columns (copied []).database (copied ["k"]).database ∧
      (copied []).FreshRequests ∧
      environment.Grown .vertex "k" (environment.schema.listing [] []).columns
        (environment.schema.listing ["k"] []).columns
        (environment.issue (copied []) (byKey .greater)).database
        (environment.issue (copied ["k"]) (byKey .greater)).database ∧
      environment.SelectsAll .vertex (.named "out") .base (copied []).database
        (environment.issue (copied []) (byKey .notEqual)).database ∧
      (copied ["k"]).database.Same (environment.issue (copied ["k"]) (byKey .notEqual)).database := by
  have hgreater := (Environment.absent_key_is_column_of_nulls (.named "out") .base
    ⟨"k", .greater, "v"⟩ copied_getsKey copied_grown (copied_fresh []) rfl).1
    (fun _ _ => by decide) fun _ => by decide
  obtain ⟨hall, hnone⟩ := (Environment.absent_key_is_column_of_nulls (.named "out") .base
    ⟨"k", .notEqual, "v"⟩ copied_getsKey copied_grown (copied_fresh []) rfl).2 rfl rfl
  exact ⟨copied_getsKey, copied_grown, copied_fresh [], hgreater,
    hall (copied_readable [] (by decide)) (copied_readable [] (by decide)) (by decide)
      (copied_readable [] (by decide)), hnone⟩

/-- The vertices that differ from a value in an absent key are not those that differ from it in a
column of nulls. -/
theorem not_absent_key_is_column_of_nulls_notEqual :
    environment.GetsKey .vertex "k" (environment.schema.listing [] []).columns
        (environment.schema.listing ["k"] []).columns ∧
      environment.Grown .vertex "k" (environment.schema.listing [] []).columns
        (environment.schema.listing ["k"] []).columns (copied []).database (copied ["k"]).database ∧
      environment.schema.ids (environment.issue (copied []) (byKey .notEqual)).database
        (tables "out").vertices = .ok ⟨.text, [.text "a", .text "b"]⟩ ∧
      environment.schema.ids (environment.issue (copied ["k"]) (byKey .notEqual)).database
        (tables "out").vertices = .ok ⟨.text, []⟩ := by
  let out := environment.schema.listing [] []
  have hputs {keys : List String} {vs : List Value}
      (hdb : (environment.issue (copied keys) (byKey .notEqual)).database.find?
        (tables "out").vertices = some (out.append (out.column "hash" (Value.groups vs))))
      (hsorted : Value.groups vs = vs) :
      environment.schema.ids (environment.issue (copied keys) (byKey .notEqual)).database
        (tables "out").vertices = .ok ((out.append (out.column "hash" vs)).cells "hash") := by
    rw [hsorted] at hdb
    exact Schema.ids_of_find? hdb rfl
  have hsorted : Value.groups [.text "a", .text "b"] = [.text "a", .text "b"] :=
    List.mergeSort_of_pairwise (l := [Value.text "a", .text "b"]) (by decide)
  exact ⟨copied_getsKey, copied_grown, hputs rfl hsorted, hputs rfl Value.groups_nil⟩

end SmallWorld
end Provenance
