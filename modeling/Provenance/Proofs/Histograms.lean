-- SUMMARY: Entries, counts and order of a histogram, in tables and in memory.
import Provenance.Proofs.BlankKeys
import Provenance.Proofs.Lookups
import Provenance.Proofs.ValueOrder
import Mathlib.Algebra.BigOperators.Group.List.Lemmas

/-!
# Histograms

A histogram has an entry for each value of an annotation, nulls and empty texts included, while its size
counts neither. Statements group the cells of a column and a graph in memory counts its elements, so the
two agree on a graph that was loaded into the tables. In a column of texts no two cells are written
alike, which is why writing the values as text merges no groups.
-/
namespace Provenance

namespace Histogram

variable {h h' : Histogram} {vs ks : List (Option String)} {v : Option String}
  {entries : List (Option String × Nat)}

/-- How often a value was counted. -/
def count (h : Histogram) (v : Option String) : Nat := (h.counts.lookup v).getD 0

/-- Each of the values has one entry, which tells how often it occurs. -/
structure Counts (h : Histogram) (vs : List (Option String)) : Prop where
  once : (h.counts.map (·.1)).Nodup
  mem_iff : ∀ v n, (v, n) ∈ h.counts ↔ v ∈ vs ∧ n = vs.count v

/-- The entries stand in ascending order of their counts, and of those counted alike the null comes
first and then the texts by code points. -/
def Ascends (h : Histogram) : Prop :=
  h.counts.Pairwise fun a b => a.2 < b.2 ∨ a.2 = b.2 ∧ a.1 < b.1

namespace Counts

theorem count_eq (hc : h.Counts vs) (v : Option String) : h.count v = vs.count v := by
  by_cases hv : v ∈ vs
  · have hentry := (lookup_eq_some_iff_mem hc.once).mpr ((hc.mem_iff v _).mpr ⟨hv, rfl⟩)
    rw [count, hentry, Option.getD_some]
  · have hnone : h.counts.lookup v = none := by
      rw [Option.eq_none_iff_forall_ne_some]
      intro n hn
      exact hv ((hc.mem_iff v n).mp ((lookup_eq_some_iff_mem hc.once).mp hn)).1
    rw [count, hnone, Option.getD_none, List.count_eq_zero_of_not_mem hv]

/-- The order of the values leaves no trace in what is counted. -/
theorem of_perm {vs' : List (Option String)} (hc : h.Counts vs) (hperm : vs.Perm vs') :
    h.Counts vs' where
  once := hc.once
  mem_iff v n := by rw [hc.mem_iff, hperm.mem_iff, hperm.count_eq]

/-- Two histograms of the same values have the same entries. -/
theorem perm (hc : h.Counts vs) (hc' : h'.Counts vs) : h.counts.Perm h'.counts := by
  refine (List.perm_ext_iff_of_nodup hc.once.of_map hc'.once.of_map).mpr fun ⟨v, n⟩ => ?_
  rw [hc.mem_iff, hc'.mem_iff]

/-- No value is lost and none is counted twice. -/
theorem sum (hc : h.Counts vs) : (h.counts.map (·.2)).sum = vs.length := by
  have hentries : h.counts.map (·.2) = (h.counts.map (·.1)).map (vs.count ·) := by
    rw [List.map_map]
    exact List.map_congr_left fun ⟨v, n⟩ hentry => ((hc.mem_iff v n).mp hentry).2
  have hperm : (h.counts.map (·.1)).Perm vs.dedup := by
    refine (List.perm_ext_iff_of_nodup hc.once vs.nodup_dedup).mpr fun v => ?_
    simp [hc.mem_iff]
  rw [hentries, (hperm.map (vs.count ·)).sum_eq, ← vs.sum_map_count_dedup_eq_length,
    lawful_beq_subsingleton instBEqOfDecidableEq Option.instBEq]

end Counts

/-! ## Recording -/

theorem foldl_record (h : Histogram) (hnodup : ((h.counts ++ entries).map (·.1)).Nodup) :
    entries.foldl (fun h entry => h.record entry.1 entry.2) h = ⟨h.counts ++ entries⟩ := by
  induction entries generalizing h with
  | nil => simp
  | cons entry entries ih =>
    have hnew : h.record entry.1 entry.2 = ⟨h.counts ++ [entry]⟩ := by
      have hnone : ¬ h.counts.any (·.1 = entry.1) = true := by
        intro hany
        obtain ⟨known, hknown, hsame⟩ := List.any_eq_true.mp hany
        rw [List.map_append, List.nodup_append] at hnodup
        exact hnodup.2.2 _ (List.mem_map_of_mem hknown) entry.1 (by simp) (of_decide_eq_true hsame)
      rw [record, if_neg hnone]
    rw [List.foldl_cons, hnew, ih _ (by simpa using hnodup)]
    simp

/-- The values with their counts are kept in the order in which they are given. -/
theorem ofCounts_of_perm (hks : ks.Nodup) (hperm : entries.Perm (ks.map fun v => (v, vs.count v))) :
    ofCounts entries = ⟨entries⟩ := by
  have hnodup : (entries.map (·.1)).Nodup := by
    rw [(hperm.map _).nodup_iff, List.map_map]
    exact (List.map_id' ks).symm ▸ hks
  exact foldl_record ⟨[]⟩ (by simpa using hnodup)

theorem counts_of_perm (hks : ks.Nodup) (hmem : ∀ v, v ∈ ks ↔ v ∈ vs)
    (hperm : entries.Perm (ks.map fun v => (v, vs.count v))) : Counts ⟨entries⟩ vs where
  once := by
    rw [(hperm.map _).nodup_iff, List.map_map]
    exact (List.map_id' ks).symm ▸ hks
  mem_iff v n := by
    rw [hperm.mem_iff]
    simp [← hmem, eq_comm]

end Histogram

/-- In memory each value is counted under one entry. -/
theorem MemoryGraph.histogram_counts (g : MemoryGraph) (key : String) (e : Element) :
    (g.histogram key e).Counts (g.valuesOf key e) := by
  have hks := Value.nodup_eraseDups (g.valuesOf key e)
  have hperm := List.mergeSort_perm
    ((g.valuesOf key e).eraseDups.map fun v => (v, (g.valuesOf key e).count v)) countedBefore
  rw [histogram, Histogram.ofCounts_of_perm hks hperm]
  exact Histogram.counts_of_perm hks (fun v => List.mem_eraseDups) hperm

/-! ## Columns of texts -/

section Texts

variable {cells : List Value}

/-- What a column of texts keeps is written in different ways. -/
theorem Value.text?_inj {v w : Value} (hv : Affinity.text.store v = v)
    (hw : Affinity.text.store w = w) (h : v.text? = w.text?) : v = w := by
  by_cases hnull : v = .null
  · subst hnull
    cases w <;> simp [text?] at h ⊢
  · obtain ⟨s, rfl⟩ := Affinity.exists_text hv hnull
    cases w with
    | null => simp [text?] at h
    | num n => cases n <;> simp [Affinity.store, Value.asText] at hw
    | text s' => simpa [text?] using h

theorem Value.canonical_of_text {v : Value} (hv : Affinity.text.store v = v) : v.canonical = v := by
  by_cases hnull : v = .null
  · rw [hnull]
    rfl
  · obtain ⟨s, rfl⟩ := Affinity.exists_text hv hnull
    rfl

/-- Duplicates are the same under relations that are the same on the members. -/
theorem eraseDupsBy_loop_congr {α : Type} {r r' : α → α → Bool} {as bs : List α}
    (h : ∀ a ∈ as ++ bs, ∀ b ∈ as ++ bs, r a b = r' a b) :
    List.eraseDupsBy.loop r as bs = List.eraseDupsBy.loop r' as bs := by
  induction as generalizing bs with
  | nil => rfl
  | cons a as ih =>
    have hany : bs.any (r a) = bs.any (r' a) := by
      rw [Bool.eq_iff_iff, List.any_eq_true, List.any_eq_true]
      exact exists_congr fun b => and_congr_right fun hb => by rw [h a (by simp) b (by simp [hb])]
    rw [List.eraseDupsBy.loop, List.eraseDupsBy.loop, hany]
    split
    · exact ih fun b hb c hc => h b (by simp_all) c (by simp_all)
    · refine ih fun b hb c hc => h b ?_ c ?_ <;> simp_all [or_comm, or_left_comm]

theorem Value.distinctGroups_of_texts (h : Affinity.text.Keeps cells) :
    distinctGroups cells = groups cells := by
  have hsame : cells.eraseDupsBy (fun v w => decide (v.canonical = w.canonical)) =
      cells.eraseDups := by
    refine eraseDupsBy_loop_congr fun v hv w hw => ?_
    rw [List.append_nil] at hv hw
    rw [canonical_of_text (h v hv), canonical_of_text (h w hw), Bool.beq_eq_decide_eq]
  rw [distinctGroups, groups, hsame]

end Texts

namespace Histogram

variable {ks vs : List (Option String)}

/-- Null comes first, then texts by code points. -/
def notAfter : Option String → Option String → Bool
  | none, _ => true
  | some _, none => false
  | some s, some t => s ≤ t

/-- Lesser counts come first, and of those counted alike the lesser value. -/
def nullsFirst (a b : Option String × Nat) : Bool :=
  a.2 < b.2 || (a.2 = b.2 && notAfter a.1 b.1)

theorem nullsFirst_iff {a b : Option String × Nat} :
    nullsFirst a b = true ↔ a.2 < b.2 ∨ a.2 = b.2 ∧ (a.1 = b.1 ∨ a.1 < b.1) := by
  obtain ⟨v, m⟩ := a
  obtain ⟨w, n⟩ := b
  cases v with
  | none => cases w <;> simp [nullsFirst, notAfter]
  | some s =>
    cases w with
    | none => simp [nullsFirst, notAfter]
    | some t =>
      have hle : s ≤ t ↔ s = t ∨ s < t := Std.le_iff_lt_or_eq.trans or_comm
      simp [nullsFirst, notAfter, hle]

theorem nullsFirst_trans {a b c : Option String × Nat} (hab : nullsFirst a b = true)
    (hbc : nullsFirst b c = true) : nullsFirst a c = true := by
  obtain ⟨u, l⟩ := a
  obtain ⟨v, m⟩ := b
  obtain ⟨w, n⟩ := c
  cases u <;> cases v <;> cases w <;> grind [nullsFirst, notAfter]

theorem nullsFirst_total (a b : Option String × Nat) :
    (nullsFirst a b || nullsFirst b a) = true := by
  obtain ⟨v, m⟩ := a
  obtain ⟨w, n⟩ := b
  cases v <;> cases w <;> grind [nullsFirst, notAfter]

theorem ascends_mergeSort (hks : ks.Nodup) :
    Ascends ⟨(ks.map fun v => (v, vs.count v)).mergeSort nullsFirst⟩ := by
  have hsorted : ((ks.map fun v => (v, vs.count v)).mergeSort nullsFirst).Pairwise
      (nullsFirst · · = true) := by
    apply List.pairwise_mergeSort
    · exact fun _ _ _ => nullsFirst_trans
    · exact nullsFirst_total
  have hdistinct : ((ks.map fun v => (v, vs.count v)).mergeSort nullsFirst).Pairwise
      fun a b => a.1 ≠ b.1 := by
    refine List.pairwise_map.mp (?_ : List.Nodup _)
    rw [((List.mergeSort_perm _ _).map _).nodup_iff, List.map_map]
    exact (List.map_id' ks).symm ▸ hks
  refine (hsorted.and hdistinct).imp fun {a b} h => ?_
  exact (nullsFirst_iff.mp h.1).imp id fun ⟨hcount, hkey⟩ => ⟨hcount, hkey.resolve_left h.2⟩

theorem le_eq_notAfter {v w : Value} (hv : Affinity.text.store v = v)
    (hw : Affinity.text.store w = w) : v.le w = notAfter v.text? w.text? := by
  by_cases hv' : v = .null
  · simp [hv', Value.le, Value.text?, notAfter]
  · obtain ⟨s, rfl⟩ := Affinity.exists_text hv hv'
    by_cases hw' : w = .null
    · simp [hw', Value.le, Value.text?, notAfter]
    · obtain ⟨t, rfl⟩ := Affinity.exists_text hw hw'
      simp [Value.le, Value.text?, notAfter]

/-- Cells in a column of texts are counted by the texts that are written for them. -/
theorem ofValues_of_texts {cells : List Value} (h : Affinity.text.Keeps cells) :
    (ofValues cells).Counts (cells.map Value.text?) ∧ (ofValues cells).Ascends := by
  let ks := (Value.groups cells).map Value.text?
  let vs := cells.map Value.text?
  let counted := (Value.groups cells).map fun v =>
    (v, cells.countP fun w => decide (w.canonical = v.canonical))
  have hinj : ∀ v ∈ cells, ∀ w ∈ cells, v.text? = w.text? → v = w :=
    fun v hv w hw => Value.text?_inj (h v hv) (h w hw)
  have hks : ks.Nodup := (Value.nodup_groups cells).map_on fun v hv w hw =>
    hinj v (Value.mem_groups.mp hv) w (Value.mem_groups.mp hw)
  have hcount (v : Value) (hv : v ∈ cells) :
      cells.countP (fun w => decide (w.canonical = v.canonical)) = vs.count v.text? := by
    rw [List.count, List.countP_map]
    refine List.countP_congr fun w hw => ?_
    rw [Value.canonical_of_text (h v hv), Value.canonical_of_text (h w hw)]
    simpa using ⟨congrArg _, hinj w hw v hv⟩
  have hentries : counted.map (fun entry => (entry.1.text?, entry.2)) =
      ks.map fun v => (v, vs.count v) := by
    rw [List.map_map, List.map_map]
    refine List.map_congr_left fun v hv => ?_
    simp [hcount v (Value.mem_groups.mp hv)]
  have hsorted : ofValues cells =
      ofCounts ((ks.map fun v => (v, vs.count v)).mergeSort nullsFirst) := by
    rw [ofValues, Value.distinctGroups_of_texts h, ← hentries]
    refine congrArg ofCounts (List.map_mergeSort fun a ha b hb => ?_)
    obtain ⟨v, hv, rfl⟩ := List.mem_map.mp ha
    obtain ⟨w, hw, rfl⟩ := List.mem_map.mp hb
    rw [nullsFirst, le_eq_notAfter (h v (Value.mem_groups.mp hv)) (h w (Value.mem_groups.mp hw))]
  have hperm := List.mergeSort_perm (ks.map fun v => (v, vs.count v)) nullsFirst
  rw [hsorted, ofCounts_of_perm hks hperm]
  refine ⟨counts_of_perm hks (fun v => ?_) hperm, ascends_mergeSort hks⟩
  simp [ks]

/-- What is counted is present, null, or the empty text. -/
theorem length_eq_present {cells : List Value} (h : Affinity.text.Keeps cells) :
    cells.length = (cells.filter Environment.isPresent).length +
      (cells.map Value.text?).count none + (cells.map Value.text?).count (some "") := by
  induction cells with
  | nil => rfl
  | cons v cells ih =>
    have hrest := ih fun w hw => h w (.tail _ hw)
    by_cases hnull : v = .null
    · subst hnull
      simp [hrest, Environment.isPresent, Value.text?]
      omega
    · obtain ⟨s, rfl⟩ := Affinity.exists_text (h v List.mem_cons_self) hnull
      by_cases hempty : s = ""
      · simp [hrest, Environment.isPresent, Value.text?, hempty]
        omega
      · simp [hrest, Environment.isPresent, Value.text?, hempty]
        omega

end Histogram

/-! ## Annotation tables of worlds -/

/-- The columns of a table that hold no annotation. -/
def Schema.reservedIn (schema : Schema) : Element → List String
  | .vertex => [schema.idColumn]
  | .edge => schema.reserved

/-- One of the annotation tables of a world. -/
def World.rowsOf (w : World) (schema : Schema) : Element → Table
  | .vertex => w.vertexRows schema
  | .edge => w.edgeRows schema

/-- The annotations of the vertices or of the edges. -/
def World.annotationsOf (w : World) : Element → List (List (String × Value))
  | .vertex => w.vertices.map (·.annotations)
  | .edge => w.edges.map (·.annotations)

/-- The keys for which a table has columns. -/
def World.keysIn (w : World) : Element → List String
  | .vertex => keysOf w.vertexKeys (w.vertices.map (·.annotations))
  | .edge => keysOf w.edgeKeys (w.edges.map (·.annotations))

/-- The world has an element for each one of the graph and no others, in whatever order. -/
structure World.Represents (w : World) (g : MemoryGraph) : Prop where
  vertices : w.vertices.Perm g.toWorld.vertices
  edges : w.edges.Perm g.toWorld.edges

namespace World

variable {w : World} {schema : Schema} {reserved keys : List String} {key : String} {e : Element}

theorem has_rowsOf :
    (w.rowsOf schema e).has key = true ↔ key ∈ schema.reservedIn e ++ w.keysIn e := by
  rw [Table.has, List.contains_iff_mem]
  cases e with
  | vertex => exact names_columnsOf
  | edge => exact names_columnsOf

/-- Behind the reserved columns stand the annotations, as texts. -/
theorem values_filled {α : Type} (xs : List α) (ids : α → List Value)
    (annotations : α → List (String × Value)) (hids : ∀ x, (ids x).length = reserved.length)
    (hreserved : key ∉ reserved) (hkey : key ∈ keys) :
    (filled schema reserved keys
        (xs.map fun x => ids x ++ cellsOf keys (annotations x))).values key =
      xs.map fun x => Affinity.text.store (((annotations x).lookup key).getD .null) := by
  simp only [filled, Table.values, Table.append, List.nil_append, List.map_map]
  refine List.map_congr_left fun x _ => ?_
  simp only [Function.comp_apply]
  rw [get_filled_of_affinity (affinityOf_columnsOf hkey) (List.mem_append_right _ hkey), cellsOf,
    lookup_zip_keys (hids x) hreserved hkey, Option.getD_some]

/-- The cells of a key are the texts of the annotations under it. -/
theorem values_rowsOf (hreserved : key ∉ schema.reservedIn e)
    (hkey : (w.rowsOf schema e).has key = true) :
    (w.rowsOf schema e).values key =
      (w.annotationsOf e).map fun a => Affinity.text.store ((a.lookup key).getD .null) := by
  have hin : key ∈ w.keysIn e := (List.mem_append.mp (has_rowsOf.mp hkey)).resolve_left hreserved
  cases e with
  | vertex =>
    rw [annotationsOf, List.map_map]
    exact values_filled w.vertices (fun v => [v.id]) (·.annotations) (fun _ => rfl) hreserved hin
  | edge =>
    rw [annotationsOf, List.map_map]
    exact values_filled w.edges (fun e => [e.id, e.child, e.parent]) (·.annotations) (fun _ => rfl)
      hreserved hin

theorem keeps_rowsOf (hreserved : key ∉ schema.reservedIn e)
    (hkey : (w.rowsOf schema e).has key = true) :
    Affinity.text.Keeps ((w.rowsOf schema e).values key) := by
  rw [values_rowsOf hreserved hkey]
  intro v hv
  obtain ⟨a, _, rfl⟩ := List.mem_map.mp hv
  exact Affinity.store_store_text _

/-- Where a graph was loaded the cells of a key are what its elements have under the key. -/
theorem Represents.texts_perm {g : MemoryGraph} (hrep : w.Represents g)
    (hreserved : key ∉ schema.reservedIn e) (hkey : (w.rowsOf schema e).has key = true) :
    (((w.rowsOf schema e).values key).map Value.text?).Perm (g.valuesOf key e) := by
  have htext (a : Annotations) :
      (Affinity.text.store ((a.cells.lookup key).getD .null)).text? = a.get? key := by
    rw [Annotations.lookup_cells]
    cases a.get? key <;> rfl
  have hloaded : (g.toWorld.annotationsOf e).map (fun a =>
      (Affinity.text.store ((a.lookup key).getD .null)).text?) = g.valuesOf key e := by
    cases e with
    | vertex => simp [annotationsOf, MemoryGraph.toWorld, MemoryGraph.valuesOf, Vertex.get?, htext]
    | edge => simp [annotationsOf, MemoryGraph.toWorld, MemoryGraph.valuesOf, Edge.get?, htext]
  have hperm : (w.annotationsOf e).Perm (g.toWorld.annotationsOf e) := by
    cases e with
    | vertex => exact hrep.vertices.map _
    | edge => exact hrep.edges.map _
  rw [values_rowsOf hreserved hkey, List.map_map, ← hloaded]
  exact hperm.map _

theorem readable_base {env : Environment} {db : Database}
    (hw : ∀ e, db.find? (env.schema.annotationTable e) = some (w.rowsOf env.schema e)) :
    env.Readable db .base := by
  refine ⟨_, rfl, fun e => ⟨w.rowsOf env.schema e, ?_, has_rowsOf.mpr ?_⟩⟩
  · cases e with
    | vertex => exact hw .vertex
    | edge => exact hw .edge
  · cases e <;> simp [Schema.reservedIn]

theorem hasColumns {env : Environment} {db : Database}
    (hw : db.find? (env.schema.annotationTable e) = some (w.rowsOf env.schema e))
    (hkey : (w.rowsOf env.schema e).has key = true) : env.HasColumns db e [key] := by
  intro t ht column hcolumn
  obtain rfl := Option.some.inj (hw.symm.trans ht)
  obtain rfl := List.mem_singleton.mp hcolumn
  exact hkey

end World

/-! ## Histograms of graphs -/

namespace Environment

variable {env : Environment} {s : Store} {g : GraphRef} {e : Element} {key : String}

theorem statisticSize_of_presentValues {vs : List Value}
    (h : (env.presentValues g e key).perform s = (.ok vs, s)) :
    (env.statisticSize g e key).perform s = (.ok vs.length, s) :=
  (Program.perform_bind_of_ok h).trans rfl

theorem histogram_of_no_size (h : (env.statisticSize g e key).perform s = (.ok 0, s)) :
    (env.histogram g e key).perform s = (.ok .empty, s) :=
  (Program.perform_bind_of_ok h).trans rfl

theorem histogram_of_size {table? : Option String} {cells : List Value} {size : Nat}
    (h : (env.statisticSize g e key).perform s = (.ok size, s)) (hsize : 0 < size)
    (htable : env.restriction? g e = .ok table?)
    (hcells : env.cellsInScope s.database e table? key = .ok cells) :
    (env.histogram g e key).perform s = (.ok (.ofValues cells), s) := by
  have hwp : (env.histogram g e key).wp (fun h s' => h = .ofValues cells ∧ s' = s) s := by
    refine .bind ⟨size, s, h, ?_⟩
    dsimp only
    rw [if_neg hsize.ne']
    exact .bind (.ofExcept htable (.query (by simp [hcells]) ⟨rfl, rfl⟩))
  obtain ⟨_, _, hrun, rfl, rfl⟩ := hwp
  exact hrun

/-- Where no value is present the histogram is empty. Otherwise it counts the rows in the scope of the
graph by their values, and for the base graph it has the entries that a graph in memory has for the
values of its elements, if that is the graph that was loaded. -/
theorem histogram_exact {w : World}
    (hw : ∀ e, s.database.find? (env.schema.annotationTable e) = some (w.rowsOf env.schema e))
    (hg : env.Readable s.database g) (hkey : key ∉ env.schema.reservedIn e) :
    ∃ size, (env.statisticSize g e key).perform s = (.ok size, s) ∧
      (size = 0 → (env.histogram g e key).perform s = (.ok .empty, s)) ∧
      (0 < size → ∃ table? cells h, env.restriction? g e = .ok table? ∧
        env.cellsInScope s.database e table? key = .ok cells ∧
        (env.histogram g e key).perform s = (.ok h, s) ∧
        (∀ v ∈ cells, ∀ w ∈ cells, v.text? = w.text? → v = w) ∧
        h.Counts (cells.map Value.text?) ∧ h.Ascends ∧
        (h.counts.map (·.2)).sum = size + h.count none + h.count (some "") ∧
        ∀ m : MemoryGraph, w.Represents m → g = .base →
          h.counts.Perm (m.histogram key e).counts) := by
  have hbase := World.readable_base hw
  by_cases hcolumn : (w.rowsOf env.schema e).has key = true
  · obtain ⟨table?, cells, htable, hcells, hvalues⟩ :=
      exists_presentValues hbase hg (World.hasColumns (hw e) hcolumn)
    have hsize := statisticSize_of_presentValues hvalues
    refine ⟨_, hsize, fun hnone => histogram_of_no_size (hnone ▸ hsize), fun hsome => ?_⟩
    have hkeeps : Affinity.text.Keeps cells := fun v hv =>
      World.keeps_rowsOf hkey hcolumn v (cellsInScope_subset (hw e) hcells hv)
    obtain ⟨hcounts, hascends⟩ := Histogram.ofValues_of_texts hkeeps
    refine ⟨table?, cells, _, htable, hcells, histogram_of_size hsize hsome htable hcells,
      fun v hv w hw => Value.text?_inj (hkeeps v hv) (hkeeps w hw), hcounts, hascends, ?_, ?_⟩
    · rw [hcounts.sum, hcounts.count_eq, hcounts.count_eq, List.length_map]
      exact Histogram.length_eq_present hkeeps
    · rintro m hrep rfl
      obtain rfl := Except.ok.inj htable
      obtain rfl := Except.ok.inj (hcells.symm.trans (cellsInScope_base (hw e) hcolumn))
      exact (hcounts.of_perm (hrep.texts_perm hkey hcolumn)).perm (m.histogram_counts key e)
  · have hblank : env.Blank s.database e key := by
      intro t ht hhas
      obtain rfl := Option.some.inj ((hw e).symm.trans ht)
      exact absurd hhas hcolumn
    have hsize := statisticSize_of_presentValues (presentValues_of_blank hbase hblank hg)
    exact ⟨0, hsize, fun _ => histogram_of_no_size hsize, fun hpos => absurd hpos (by decide)⟩

end Environment

namespace SmallWorld

/-- Of a process and a file only the process has a name. -/
theorem histogram_exact_reading :
    (MemoryGraph.reading.toWorld.load environment.schema).wp (fun _ s => ∃ h,
      (environment.statisticSize .base .vertex "name").perform s = (.ok 1, s) ∧
      (environment.histogram .base .vertex "name").perform s = (.ok h, s) ∧
      h.Counts [some "cat", none] ∧ h.Ascends ∧
      h.counts.Perm (MemoryGraph.reading.histogram "name" .vertex).counts) start := by
  refine (World.load_rows MemoryGraph.canLoad_reading).mono fun _ s h => ?_
  have hw (e : Element) : s.database.find? (environment.schema.annotationTable e) =
      some (MemoryGraph.reading.toWorld.rowsOf environment.schema e) := by
    cases e with
    | vertex => exact h.1
    | edge => exact h.2.1
  have hbase := World.readable_base hw
  have hkey : "name" ∉ environment.schema.reservedIn .vertex := by decide
  have hcolumn :
      (MemoryGraph.reading.toWorld.rowsOf environment.schema .vertex).has "name" = true := by
    have hkeys : MemoryGraph.reading.toWorld.keysIn .vertex = ["name", "pid"] :=
      World.keysOf_eq (by decide) (by decide)
    rw [World.has_rowsOf, hkeys]
    decide
  have hcells : environment.cellsInScope s.database .vertex none "name" =
      .ok [.text "cat", .null] := by
    rw [Environment.cellsInScope_base (hw .vertex) hcolumn, World.values_rowsOf hkey hcolumn]
    rfl
  obtain ⟨size, hsize, _, hsome⟩ := Environment.histogram_exact hw hbase hkey
  obtain ⟨_, _, htable, hfound, hvalues⟩ :=
    Environment.exists_presentValues hbase hbase (World.hasColumns (hw .vertex) hcolumn)
  obtain rfl := Except.ok.inj htable
  obtain rfl := Except.ok.inj (hcells.symm.trans hfound)
  have hone := hsize.symm.trans (Environment.statisticSize_of_presentValues hvalues)
  obtain rfl : size = 1 := Except.ok.inj (congrArg Prod.fst hone)
  obtain ⟨table?, cells, h, htable, hfound, hrun, _, hcounts, hascends, _, hmemory⟩ :=
    hsome (by decide)
  obtain rfl := Except.ok.inj htable
  obtain rfl := Except.ok.inj (hcells.symm.trans hfound)
  exact ⟨h, hsize, hrun, hcounts, hascends, hmemory _ ⟨.rfl, .rfl⟩ rfl⟩

end SmallWorld

end Provenance
