-- SUMMARY: Bins in exact arithmetic: they follow each other, and each number is counted once.
import Provenance.Proofs.IntegerDeviations
import Mathlib.Algebra.Order.Ring.Rat
import Mathlib.Tactic.FieldSimp
import Mathlib.Tactic.Linarith
import Mathlib.Tactic.Ring

/-!
# Distributions in exact arithmetic

Where the bounds of bins are computed without rounding, the bins follow each other without gap or overlap
from the least of the numbers to the greatest. A number that is a bound lies in the bin that begins there,
and the greatest in the last bin. So every number is counted once. All bins are counted by one statement,
a column each, and that is what limits their number.
-/
namespace Provenance

/-! ## Exact values -/

namespace Number

/-- The exact value. What has none counts as zero. -/
def exact (n : Number) : Rat :=
  match n.magnitude? with
  | some (.at q) => q
  | _ => 0

/-- The number is neither infinite nor without a value. -/
def IsFinite (n : Number) : Prop := ∃ q, n.magnitude? = some (.at q)

/-- Comparison with exact bounds. -/
def exactComparison : Comparison Number Rat where
  atLeast n bound := bound ≤ n.exact
  below n bound := n.exact < bound
  atMost n bound := n.exact ≤ bound

theorem isFinite_int (n : Int) : (int n).IsFinite := ⟨n, rfl⟩

variable {m n : Number} {ns : List Number}

theorem IsFinite.magnitude? (h : n.IsFinite) : n.magnitude? = some (.at n.exact) := by
  obtain ⟨q, hq⟩ := h
  rw [exact, hq]

/-- Finite numbers are ordered by their exact values. -/
theorem lt_eq (hm : m.IsFinite) (hn : n.IsFinite) : m.lt n = decide (m.exact < n.exact) := by
  have hle : (!(Magnitude.at n.exact).le (.at m.exact)) = decide (m.exact < n.exact) := by
    simp [Magnitude.le, ← not_lt]
  cases m with
  | real x =>
    unfold Number.lt
    simp only [hm.magnitude?, hn.magnitude?, hle]
  | int m =>
    cases n with
    | real y =>
      unfold Number.lt
      simp only [hm.magnitude?, hn.magnitude?, hle]
    | int n => simp [Number.lt, exact, Number.magnitude?]

/-- A number that is passed on when it is better than all before it is the best of all. -/
theorem foldl_best (rank : Number → Rat) {better : Number → Number → Bool}
    (hbetter : ∀ m n, m.IsFinite → n.IsFinite → better m n = decide (rank m < rank n))
    (hfinite : ∀ m ∈ n :: ns, m.IsFinite) :
    let best := ns.foldl (fun best m => if better m best then m else best) n
    best ∈ n :: ns ∧ ∀ m ∈ n :: ns, rank best ≤ rank m := by
  induction ns generalizing n with
  | nil => simp
  | cons m ns ih =>
    have hn := hfinite n (by simp)
    have hm := hfinite m (by simp)
    obtain ⟨first, hfirst, hor, hlen, hlem⟩ : ∃ first, first = (if better m n then m else n) ∧
        (first = m ∨ first = n) ∧ rank first ≤ rank n ∧ rank first ≤ rank m := by
      refine ⟨_, rfl, ?_⟩
      rw [hbetter m n hm hn]
      by_cases hless : rank m < rank n
      · simp [hless, hless.le]
      · simp [hless, not_lt.mp hless]
    have hrest : ∀ k ∈ first :: ns, k.IsFinite := by
      refine List.forall_mem_cons.mpr ⟨?_, fun k hk => hfinite k (by simp [hk])⟩
      obtain rfl | rfl := hor
      · exact hm
      · exact hn
    obtain ⟨hin, hleast⟩ := ih hrest
    rw [List.foldl_cons, ← hfirst]
    refine ⟨?_, List.forall_mem_cons.mpr ⟨?_, List.forall_mem_cons.mpr ⟨?_, ?_⟩⟩⟩
    · obtain rfl | rfl := hor
      · exact List.mem_cons_of_mem n hin
      · exact List.cons_subset_cons _ (List.subset_cons_self _ _) hin
    · exact (hleast first List.mem_cons_self).trans hlen
    · exact (hleast first List.mem_cons_self).trans hlem
    · exact fun k hk => hleast k (List.mem_cons_of_mem first hk)

theorem minimum_mem (hsome : ns ≠ []) (hfinite : ∀ n ∈ ns, n.IsFinite) :
    minimum ns ∈ ns ∧ ∀ n ∈ ns, (minimum ns).exact ≤ n.exact := by
  obtain ⟨n, rest, rfl⟩ := List.exists_cons_of_ne_nil hsome
  exact foldl_best exact (fun m n hm hn => lt_eq hm hn) hfinite

theorem maximum_mem (hsome : ns ≠ []) (hfinite : ∀ n ∈ ns, n.IsFinite) :
    maximum ns ∈ ns ∧ ∀ n ∈ ns, n.exact ≤ (maximum ns).exact := by
  obtain ⟨n, rest, rfl⟩ := List.exists_cons_of_ne_nil hsome
  -- the greatest is the best by the opposite values
  have hbest := foldl_best (fun n => -n.exact)
    (fun m n hm hn => by simpa using lt_eq hn hm) hfinite
  exact ⟨hbest.1, fun m hm => neg_le_neg_iff.mp (hbest.2 m hm)⟩

end Number

/-! ## Bins side by side -/

namespace Interval

/-- The intervals follow each other from one bound to another. -/
inductive Tiles : Rat → Rat → List (Interval Rat) → Prop
  | last {low high : Rat} (h : low < high) : Tiles low high [⟨low, high⟩]
  | cons {low mid high : Rat} {rest : List (Interval Rat)} (h : low < mid)
      (hrest : Tiles mid high rest) : Tiles low high (⟨low, mid⟩ :: rest)

/-- The value lies between the bounds. It may be the lower one, and in the last bin also the upper
one. -/
def Holds (i : Interval Rat) (isLast : Prop) (q : Rat) : Prop :=
  i.low ≤ q ∧ (q < i.high ∨ isLast ∧ q = i.high)

instance (i : Interval Rat) (isLast : Prop) [Decidable isLast] (q : Rat) :
    Decidable (i.Holds isLast q) :=
  inferInstanceAs (Decidable (_ ∧ _))

/-- Bins of one width. -/
def steps (low step : Rat) (first count : Nat) : List (Interval Rat) :=
  (List.range' first count).map fun (i : Nat) => ⟨low + i * step, low + (i + 1) * step⟩

theorem tiles_steps (low : Rat) {step : Rat} (hstep : 0 < step) (first count : Nat) :
    Tiles (low + first * step) (low + (first + count + 1) * step) (steps low step first (count + 1)) := by
  have hnext (i : Rat) : low + i * step < low + (i + 1) * step := by linarith
  induction count generalizing first with
  | zero => simpa [steps] using Tiles.last (hnext first)
  | succ count ih =>
    have hlow : low + ((first : Rat) + 1) * step = low + (first + 1 : Nat) * step := by push_cast; rfl
    have hhigh : low + (first + (count + 1 : Nat) + 1) * step =
        low + ((first + 1 : Nat) + count + 1) * step := by
      push_cast
      ring
    rw [steps, List.range'_succ, List.map_cons, hhigh]
    refine .cons (hnext first) ?_
    rw [hlow]
    exact ih (first + 1)

/-- Computed exactly, the last bin ends where a further one would begin. -/
theorem equalBins_eq_steps (low high : Rat) {count : Nat} (hcount : 0 < count) :
    equalBins low high count = steps low ((high - low) / count) 0 count := by
  rw [equalBins, steps, List.range_eq_range']
  refine List.map_congr_left fun i _ => ?_
  have hne : (count : Rat) ≠ 0 := by exact_mod_cast hcount.ne'
  have hhigh : low + count * ((high - low) / count) = high := by
    field_simp
    ring
  by_cases hlast : i + 1 = count
  · have hcast : (i : Rat) + 1 = count := by exact_mod_cast hlast
    simp only [if_pos hlast, hcast, hhigh]
  · simp [hlast]

theorem tiles_equalBins {low high : Rat} (h : low < high) {count : Nat} (hcount : 0 < count) :
    Tiles low high (equalBins low high count) := by
  have hpos : (0 : Rat) < count := by exact_mod_cast hcount
  have htiles := tiles_steps low (div_pos (sub_pos.mpr h) hpos) 0 (count - 1)
  rw [equalBins_eq_steps low high hcount]
  have hsucc : count - 1 + 1 = count := Nat.sub_add_cancel hcount
  rw [hsucc] at htiles
  have hcast : ((count - 1 : Nat) : Rat) + 1 = count := by exact_mod_cast hsucc
  convert htiles using 1
  · simp
  · rw [Nat.cast_zero, zero_add, hcast]
    field_simp
    ring

namespace Tiles

variable {low high q : Rat} {is : List (Interval Rat)}

theorem ne_nil (h : Tiles low high is) : is ≠ [] := by cases h <;> simp

theorem lt (h : Tiles low high is) : low < high := by
  induction h with
  | last h => exact h
  | cons h _ ih => exact h.trans ih

theorem le_low (h : Tiles low high is) : ∀ i ∈ is, low ≤ i.low := by
  induction h with
  | last => simp
  | cons h _ ih =>
    refine List.forall_mem_cons.mpr ⟨le_rfl, fun i hi => h.le.trans (ih i hi)⟩

/-- Later bins begin above those before them. -/
theorem pairwise (h : Tiles low high is) : is.Pairwise fun i j => i.low < j.low := by
  induction h with
  | last => simp
  | cons h hrest ih =>
    exact List.pairwise_cons.mpr ⟨fun j hj => h.trans_le (hrest.le_low j hj), ih⟩

/-- Every value from one bound to the other lies in exactly one bin. -/
theorem existsUnique_holds (h : Tiles low high is) (hlow : low ≤ q) (hhigh : q ≤ high) :
    ∃! k, ∃ hk : k < is.length, is[k].Holds (k + 1 = is.length) q := by
  induction h with
  | @last low high hlt =>
    refine ⟨0, ⟨by simp, hlow, ?_⟩, fun k hk => ?_⟩
    · simpa using hhigh.lt_or_eq
    · obtain ⟨hk, _⟩ := hk
      simpa using hk
  | @cons low mid high rest hlt hrest ih =>
    by_cases hq : q < mid
    · refine ⟨0, ⟨by simp, hlow, .inl hq⟩, fun k hk => ?_⟩
      obtain ⟨hk, hholds⟩ := hk
      cases k with
      | zero => rfl
      | succ k =>
        have hlater : k < rest.length := by simpa using hk
        have hin : rest[k] ∈ rest := List.getElem_mem hlater
        exact absurd (hq.trans_le (hrest.le_low _ hin)) (not_lt.mpr hholds.1)
    · obtain ⟨k, ⟨hk, hholds⟩, hunique⟩ := ih (not_lt.mp hq) hhigh
      refine ⟨k + 1, ⟨by simpa using hk, by simpa using hholds⟩, fun k' hk' => ?_⟩
      obtain ⟨hk', hholds'⟩ := hk'
      cases k' with
      | zero =>
        obtain hless | ⟨hlast, _⟩ := hholds'.2
        · exact absurd hless hq
        · exact absurd hlast (by simpa using hrest.ne_nil)
      | succ k' =>
        exact congrArg _ (hunique k' ⟨by simpa using hk', by simpa using hholds'⟩)

end Tiles
end Interval

/-! ## Counts -/

namespace Comparison

variable {α β : Type} (cmp : Comparison β α) (observed : List β)

@[simp] theorem map_fst_tally (is : List (Interval α)) : (cmp.tally observed is).map (·.1) = is := by
  induction is with
  | nil => rfl
  | cons i is ih => rw [tally, List.map_cons, ih]

@[simp] theorem length_tally (is : List (Interval α)) : (cmp.tally observed is).length = is.length := by
  rw [← List.length_map (f := (·.1)), map_fst_tally]

theorem getElem_tally {is : List (Interval α)} {k : Nat} (hk : k < is.length)
    (hcount : k < (cmp.tally observed is).length) : (cmp.tally observed is)[k] =
      (is[k], observed.countP (cmp.inBin (decide (k + 1 = is.length)) is[k])) := by
  induction is generalizing k with
  | nil => cases hk
  | cons i is ih =>
    cases k with
    | zero => cases is <;> simp [tally]
    | succ k => simpa [tally] using ih (by simpa using hk) (by simpa using hk)

end Comparison

namespace Number

theorem inBin_iff {isLast : Bool} {i : Interval Rat} {n : Number} :
    exactComparison.inBin isLast i n = true ↔ i.Holds (isLast = true) n.exact := by
  cases isLast with
  | false => simp [Comparison.inBin, exactComparison, Interval.Holds]
  | true => simp [Comparison.inBin, exactComparison, Interval.Holds, le_iff_lt_or_eq (b := i.high)]

theorem tally_singleton {q : Rat} {ns : List Number} (h : ∀ n ∈ ns, n.exact = q) :
    exactComparison.tally ns [⟨q, q⟩] = [(⟨q, q⟩, ns.length)] := by
  have hall : ns.countP (exactComparison.inBin true ⟨q, q⟩) = ns.length := by
    rw [List.countP_eq_length]
    exact fun n hn => by simp [Comparison.inBin, exactComparison, h n hn]
  rw [Comparison.tally, List.isEmpty_nil, hall, Comparison.tally]

/-- Up to a bound in between, and from there on. -/
theorem countP_between {low mid high : Rat} (hlow : low ≤ mid) (hhigh : mid ≤ high)
    (ns : List Number) :
    ns.countP (fun n => decide (low ≤ n.exact) && decide (n.exact < mid)) +
        ns.countP (fun n => decide (mid ≤ n.exact) && decide (n.exact ≤ high)) =
      ns.countP fun n => decide (low ≤ n.exact) && decide (n.exact ≤ high) := by
  rw [List.countP_eq_countP_filter_add ns (fun n => decide (low ≤ n.exact) && decide (n.exact ≤ high))
    fun n => decide (n.exact < mid), List.countP_filter, List.countP_filter]
  congr 1
  · refine List.countP_congr fun n _ => ?_
    simp only [Bool.and_eq_true, decide_eq_true_eq]
    exact ⟨fun ⟨hl, hm⟩ => ⟨⟨hl, hm.le.trans hhigh⟩, hm⟩, fun ⟨⟨hl, _⟩, hm⟩ => ⟨hl, hm⟩⟩
  · refine List.countP_congr fun n _ => ?_
    simp only [Bool.and_eq_true, Bool.not_eq_true', decide_eq_true_eq, decide_eq_false_iff_not, not_lt]
    exact ⟨fun ⟨hm, hh⟩ => ⟨⟨hlow.trans hm, hh⟩, hm⟩, fun ⟨⟨_, hh⟩, hm⟩ => ⟨hm, hh⟩⟩

/-- Of the numbers from one bound to the other, each is counted once. -/
theorem sum_tally {low high : Rat} {is : List (Interval Rat)} (h : Interval.Tiles low high is)
    (ns : List Number) : ((exactComparison.tally ns is).map (·.2)).sum =
      ns.countP fun n => decide (low ≤ n.exact) && decide (n.exact ≤ high) := by
  induction h with
  | last => rfl
  | @cons low mid high rest hlt hrest ih =>
    have hnotLast : rest.isEmpty = false := by simpa using hrest.ne_nil
    rw [Comparison.tally, List.map_cons, List.sum_cons, ih, hnotLast,
      ← countP_between hlt.le hrest.lt.le]
    rfl

end Number

namespace Distribution

variable {counts : List (Interval Rat × Nat)}

theorem foldl_record (d : Distribution Rat)
    (h : (d.counts ++ counts).Pairwise fun a b => a.1.low < b.1.low) :
    counts.foldl (fun d entry => d.record entry.1 entry.2) d = ⟨d.counts ++ counts⟩ := by
  induction counts generalizing d with
  | nil => simp
  | cons entry counts ih =>
    have hnew : d.record entry.1 entry.2 = ⟨d.counts ++ [entry]⟩ := by
      have hnone : d.counts.any (·.1.same entry.1) = false := by
        rw [List.any_eq_false]
        intro known hknown
        have hlow := (List.pairwise_append.mp h).2.2 known hknown entry List.mem_cons_self
        simp [Interval.same, hlow.ne]
      rw [record, if_neg (by simp [hnone])]
    rw [List.foldl_cons, hnew, ih _ (by simpa using h)]
    simp

/-- Bins in ascending order are kept as they are. -/
theorem ofCounts_of_pairwise (h : counts.Pairwise fun a b => a.1.low < b.1.low) :
    ofCounts counts = ⟨counts⟩ := by
  have hrecorded := foldl_record ⟨[]⟩ (by simpa using h)
  rw [ofCounts, hrecorded, List.nil_append, List.mergeSort_of_pairwise]
  refine h.imp fun {a b} hlow => ?_
  simp [Interval.before, hlow.ne', hlow.le]

end Distribution

/-- The numbers are counted in so many bins of equal width from the least to the greatest. -/
structure Binned (ns : List Number) (low high : Rat) (bins : Nat)
    (counts : List (Interval Rat × Nat)) : Prop where
  length : counts.length = bins
  first : ∀ entry ∈ counts.head?, entry.1.low = low
  last : ∀ entry ∈ counts.getLast?, entry.1.high = high
  width : ∀ entry ∈ counts, entry.1.high - entry.1.low = (high - low) / bins
  adjacent : ∀ k, (h : k + 1 < counts.length) → counts[k].1.high = counts[k + 1].1.low
  once : ∀ n ∈ ns, ∃! k, ∃ h : k < counts.length, counts[k].1.Holds (k + 1 = counts.length) n.exact
  counted : ∀ k, (h : k < counts.length) → counts[k].2 =
    ns.countP fun n => decide (counts[k].1.Holds (k + 1 = counts.length) n.exact)
  sum : (counts.map (·.2)).sum = ns.length

theorem binsBetween_of_lt {low high : Rat} (h : low < high) (count : Nat) :
    binsBetween low high count = equalBins low high count := by
  rw [binsBetween, if_neg (by simpa using h.ne')]

@[simp] theorem length_equalBins (low high : Rat) (count : Nat) :
    (equalBins low high count).length = count := by
  simp [equalBins]

section Bins

variable {ns : List Number} {low high : Rat} {bins : Nat} {counts : List (Interval Rat × Nat)}
  (h : low < high) (hbins : 0 < bins) (hbounds : counts.map (·.1) = equalBins low high bins)

include hbins hbounds

theorem getElem_of_bounds (k : Nat) (hk : k < counts.length) : counts[k].1 =
    ⟨low + k * ((high - low) / bins), low + (k + 1) * ((high - low) / bins)⟩ := by
  rw [Interval.equalBins_eq_steps low high hbins] at hbounds
  have hget := List.getElem_of_eq hbounds (i := k) (by simpa using hk)
  rw [List.getElem_map] at hget
  simpa [Interval.steps] using hget

include h

/-- Bins of equal width with the right counts. -/
theorem binned_of_bounds (hns : ∀ n ∈ ns, low ≤ n.exact ∧ n.exact ≤ high)
    (hcounted : ∀ k, (h : k < counts.length) → counts[k].2 =
      ns.countP fun n => decide (counts[k].1.Holds (k + 1 = counts.length) n.exact))
    (hsum : (counts.map (·.2)).sum = ns.length) : Binned ns low high bins counts := by
  have hbin := getElem_of_bounds hbins hbounds
  have hlength : counts.length = bins := by
    simpa using congrArg List.length hbounds
  have htiles : Interval.Tiles low high (counts.map (·.1)) :=
    hbounds ▸ Interval.tiles_equalBins h hbins
  refine ⟨hlength, fun entry hentry => ?_, fun entry hentry => ?_, fun entry hentry => ?_,
    fun k hk => ?_, fun n hn => ?_, hcounted, hsum⟩
  · rw [List.head?_eq_getElem?, Option.mem_def, List.getElem?_eq_some_iff] at hentry
    obtain ⟨hk, rfl⟩ := hentry
    simp [hbin 0 hk]
  · rw [List.getLast?_eq_getElem?, Option.mem_def, List.getElem?_eq_some_iff] at hentry
    obtain ⟨hk, rfl⟩ := hentry
    have hlast : ((counts.length - 1 : Nat) : Rat) + 1 = bins := by
      exact_mod_cast (Nat.sub_add_cancel (Nat.zero_lt_of_lt hk)).trans hlength
    have hne : (bins : Rat) ≠ 0 := by exact_mod_cast hbins.ne'
    rw [hbin _ hk, hlast]
    field_simp
    ring
  · obtain ⟨k, hk, rfl⟩ := List.getElem_of_mem hentry
    rw [hbin k hk]
    ring
  · rw [hbin k (Nat.lt_of_succ_lt hk), hbin (k + 1) hk]
    push_cast
    rfl
  · simpa using htiles.existsUnique_holds (hns n hn).1 (hns n hn).2

end Bins

/-- Numbers between two bounds, counted in the bins of equal width between these. -/
theorem binned_tally {ns : List Number} {low high : Rat} (h : low < high) {bins : Nat}
    (hbins : 0 < bins) (hns : ∀ n ∈ ns, low ≤ n.exact ∧ n.exact ≤ high) :
    Binned ns low high bins (Number.exactComparison.tally ns (equalBins low high bins)) := by
  refine binned_of_bounds h hbins (Comparison.map_fst_tally _ _ _) hns (fun k hk => ?_) ?_
  · have hcount := Comparison.getElem_tally Number.exactComparison ns
      (show k < (equalBins low high bins).length by simpa using hk)
    simp only [hcount, Comparison.length_tally]
    exact List.countP_congr fun n _ => by simp [Number.inBin_iff]
  · rw [Number.sum_tally (Interval.tiles_equalBins h hbins), List.countP_eq_length]
    simpa using hns

/-! ## The instruction -/

namespace Environment

variable {env : Environment} {s : Store} {e : Element} {key : String} {g : GraphRef}

section Arithmetic

variable {α : Type} [BEq α] [Add α] [Sub α] [Mul α] [Div α] [NatCast α] [LT α] [DecidableLT α]

/-- The distribution in any arithmetic, in which numbers are read and compared. -/
def distributionIn (env : Environment) (read : Number → α) (cmp : Comparison Number α)
    (graph : GraphRef) (e : Element) (key : String) (bins : Int) : Program (Distribution α) := do
  if bins ≤ 0 then throw (.noBins bins)
  let numbers ← env.presentNumbers graph e key
  if numbers.isEmpty then return ⟨[]⟩
  let intervals := binsBetween (read (Number.minimum numbers)) (read (Number.maximum numbers))
    (min bins.toNat (Sql.columnLimit + 1))
  if Sql.columnLimit < intervals.length then throw .statementFailed
  return .ofCounts (cmp.tally numbers intervals)

/-- The instruction computes in doubles. -/
theorem distribution_eq_distributionIn (bins : Int) : env.distribution g e key bins =
    env.distributionIn Number.toFloat Number.comparison g e key bins := rfl

theorem perform_distributionIn {ns : List Number} (read : Number → α) (cmp : Comparison Number α)
    (hns : (env.presentNumbers g e key).perform s = (.ok ns, s)) (hsome : ns ≠ []) {bins : Int}
    (hbins : 0 < bins) :
    let intervals := binsBetween (read (Number.minimum ns)) (read (Number.maximum ns))
      (min bins.toNat (Sql.columnLimit + 1))
    (env.distributionIn read cmp g e key bins).perform s =
      (if Sql.columnLimit < intervals.length then .error .statementFailed
        else .ok (.ofCounts (cmp.tally ns intervals)), s) := by
  unfold distributionIn
  rw [if_neg (not_le.mpr hbins)]
  refine (Program.perform_bind_of_ok rfl).trans ((Program.perform_bind_of_ok hns).trans ?_)
  rw [if_neg (by simpa using hsome)]
  dsimp only
  by_cases hmany : Sql.columnLimit < (binsBetween (read (Number.minimum ns))
      (read (Number.maximum ns)) (min bins.toNat (Sql.columnLimit + 1))).length
  · rw [if_pos hmany, if_pos hmany]
    rfl
  · rw [if_neg hmany, if_neg hmany]
    rfl

end Arithmetic

/-- The distribution computed exactly. -/
def exactDistribution (env : Environment) : GraphRef → Element → String → Int →
    Program (Distribution Rat) :=
  env.distributionIn Number.exact Number.exactComparison

/-- All numbers are the same, or they lie in bins of equal width that can be as many as columns. -/
theorem exactDistribution_of_presentNumbers {ns : List Number} {bins : Int}
    (hns : (env.presentNumbers g e key).perform s = (.ok ns, s)) (hsome : ns ≠ [])
    (hfinite : ∀ n ∈ ns, n.IsFinite) (hbins : 0 < bins) :
    ∃ low high, (∃ n ∈ ns, n.exact = low) ∧ (∃ n ∈ ns, n.exact = high) ∧
      (∀ n ∈ ns, low ≤ n.exact ∧ n.exact ≤ high) ∧
      (low = high → (env.exactDistribution g e key bins).perform s =
        (.ok ⟨[(⟨low, low⟩, ns.length)]⟩, s)) ∧
      (low < high → bins ≤ Sql.columnLimit → ∃ counts,
        (env.exactDistribution g e key bins).perform s = (.ok ⟨counts⟩, s) ∧
          Binned ns low high bins.toNat counts) ∧
      (low < high → Sql.columnLimit < bins →
        (env.exactDistribution g e key bins).perform s = (.error .statementFailed, s)) := by
  obtain ⟨hlow, hleast⟩ := Number.minimum_mem hsome hfinite
  obtain ⟨hhigh, hgreatest⟩ := Number.maximum_mem hsome hfinite
  have hrun := perform_distributionIn Number.exact Number.exactComparison hns hsome hbins
  have hbetween (n : Number) (hn : n ∈ ns) := And.intro (hleast n hn) (hgreatest n hn)
  refine ⟨_, _, ⟨_, hlow, rfl⟩, ⟨_, hhigh, rfl⟩, hbetween, fun heq => ?_, fun hlt hle => ?_,
    fun hlt hmany => ?_⟩
  · have hone : binsBetween (Number.minimum ns).exact (Number.maximum ns).exact
        (min bins.toNat (Sql.columnLimit + 1)) =
        [⟨(Number.minimum ns).exact, (Number.minimum ns).exact⟩] := by
      rw [binsBetween, if_pos (by simpa using heq.symm), ← heq]
    have hsame (n : Number) (hn : n ∈ ns) : n.exact = (Number.minimum ns).exact :=
      le_antisymm ((hbetween n hn).2.trans_eq heq.symm) (hbetween n hn).1
    rw [exactDistribution, hrun, hone, List.length_singleton,
      if_neg (show ¬ Sql.columnLimit < 1 by decide), Number.tally_singleton hsame,
      Distribution.ofCounts_of_pairwise (by simp)]
  · have hcount : min bins.toNat (Sql.columnLimit + 1) = bins.toNat := by omega
    have hpos : 0 < bins.toNat := by omega
    have hbinned := binned_tally hlt hpos hbetween
    have hsorted := (Interval.tiles_equalBins hlt hpos).pairwise
    rw [← Comparison.map_fst_tally Number.exactComparison ns (equalBins _ _ _), List.pairwise_map]
      at hsorted
    refine ⟨_, ?_, hbinned⟩
    rw [exactDistribution, hrun, hcount, binsBetween_of_lt hlt, length_equalBins, if_neg (by omega),
      Distribution.ofCounts_of_pairwise hsorted]
  · rw [exactDistribution, hrun, binsBetween_of_lt hlt, length_equalBins, if_pos (by omega)]

/-- The numbers that are present in the scope of a graph are counted in bins of equal width from the least
of them to the greatest, each in one bin, or all in a single one if they are the same. More bins than a
statement answers with columns are refused. -/
theorem exactDistribution_exact (hbase : env.Readable s.database .base)
    (hg : env.Readable s.database g) (hkey : env.HasColumns s.database e [key]) (bins : Int)
    (hbins : 0 < bins) :
    ∃ table? cells, env.restriction? g e = .ok table? ∧
      env.cellsInScope s.database e table? key = .ok cells ∧
      let ns := (cells.filter isPresent).map numberOf
      (env.statisticSize g e key).perform s = (.ok ns.length, s) ∧
      (ns ≠ [] → (∀ n ∈ ns, n.IsFinite) →
        ∃ low high, (∃ n ∈ ns, n.exact = low) ∧ (∃ n ∈ ns, n.exact = high) ∧
          (∀ n ∈ ns, low ≤ n.exact ∧ n.exact ≤ high) ∧
          (low = high → (env.exactDistribution g e key bins).perform s =
            (.ok ⟨[(⟨low, low⟩, ns.length)]⟩, s)) ∧
          (low < high → bins ≤ Sql.columnLimit → ∃ counts,
            (env.exactDistribution g e key bins).perform s = (.ok ⟨counts⟩, s) ∧
              Binned ns low high bins.toNat counts) ∧
          (low < high → Sql.columnLimit < bins →
            (env.exactDistribution g e key bins).perform s = (.error .statementFailed, s))) := by
  obtain ⟨table?, cells, htable, hcells, hvalues⟩ := exists_presentValues hbase hg hkey
  have hnumbers : (env.presentNumbers g e key).perform s =
      (.ok ((cells.filter isPresent).map numberOf), s) :=
    (Program.perform_bind_of_ok hvalues).trans rfl
  refine ⟨table?, cells, htable, hcells, ?_, fun hsome hfinite =>
    exactDistribution_of_presentNumbers hnumbers hsome hfinite hbins⟩
  rw [List.length_map]
  exact (Program.perform_bind_of_ok hvalues).trans rfl

end Environment

namespace SmallWorld

theorem numberOf_digits {s : String} (hsome : s.toList ≠ [])
    (hdigits : s.toList.all Literal.isAsciiDigit = true)
    (hword : Number.inWord (Literal.ofDigits s.toList) = true) :
    Environment.numberOf (.text s) = .int (Literal.ofDigits s.toList) :=
  Environment.numberOf_of_writesInteger
    (.digits (.inl rfl) hsome (List.all_eq_true.mp hdigits) hword)

/-- Both texts are present, and stand for integers. -/
theorem numbers_numbered {a b : String} {m n : Int}
    (ha : a ≠ "" ∧ Environment.numberOf (.text a) = .int m)
    (hb : b ≠ "" ∧ Environment.numberOf (.text b) = .int n) :
    ([.text a, .text b].filter Environment.isPresent).map Environment.numberOf =
      [.int m, .int n] := by
  have hpresent : ∀ v ∈ [Value.text a, .text b], Environment.isPresent v = true := by
    simp [Environment.isPresent, ha.1, hb.1]
  rw [List.filter_eq_self.mpr hpresent, List.map_cons, List.map_cons, List.map_nil, ha.2, hb.2]

/-- A number in each of two bins. -/
theorem exactDistribution_exact_numbered :
    Program.wp ((numbered "1" "3").load environment.schema) (fun _ s => ∃ low high counts,
      (environment.exactDistribution .base .vertex "k" 2).perform s = (.ok ⟨counts⟩, s) ∧
        Binned [.int 1, .int 3] low high 2 counts) start := by
  refine (wp_load_numbered "1" "3").mono fun _ s h => ?_
  obtain ⟨hbase, hkey, hcells⟩ := h
  obtain ⟨table?, cells, htable, hfound, _, hbinned⟩ :=
    Environment.exactDistribution_exact hbase hbase hkey 2 (by decide)
  obtain rfl := Except.ok.inj htable
  obtain rfl := Except.ok.inj (hcells.symm.trans hfound)
  rw [numbers_numbered ⟨by decide, numberOf_digits (by decide) (by rfl) (by decide)⟩
    ⟨by decide, numberOf_digits (by decide) (by rfl) (by decide)⟩] at hbinned
  obtain ⟨low, high, _, _, hbetween, _, hfits, _⟩ :=
    hbinned (by simp) (by simp [Number.isFinite_int])
  have hlow : low ≤ (1 : Int) := (hbetween (.int 1) List.mem_cons_self).1
  have hhigh : ((3 : Int) : Rat) ≤ high := (hbetween (.int 3) (by simp [Literal.ofDigits])).2
  have hbounds : low < high := (hlow.trans_lt (by norm_num)).trans_le hhigh
  exact ⟨low, high, hfits hbounds (by decide)⟩

/-- The numbers nought and 2001, and as many bins as the greater of them. -/
theorem not_exactDistribution_exact_manyBins :
    Program.wp ((numbered "0" "2001").load environment.schema) (fun _ s =>
      environment.cellsInScope s.database .vertex none "k" = .ok [.text "0", .text "2001"] ∧
      (environment.exactDistribution .base .vertex "k" 2001).perform s = (.error .statementFailed, s))
      start := by
  refine (wp_load_numbered "0" "2001").mono fun _ s h => ?_
  obtain ⟨hbase, hkey, hcells⟩ := h
  obtain ⟨table?, cells, htable, hfound, hvalues⟩ :=
    Environment.exists_presentValues hbase hbase hkey
  obtain rfl := Except.ok.inj htable
  obtain rfl := Except.ok.inj (hcells.symm.trans hfound)
  have hnumbers : (environment.presentNumbers .base .vertex "k").perform s =
      (.ok [.int 0, .int 2001], s) := by
    refine (Program.perform_bind_of_ok hvalues).trans ?_
    rw [numbers_numbered ⟨by decide, numberOf_digits (by decide) (by rfl) (by decide)⟩
      ⟨by decide, numberOf_digits (by decide) (by rfl) (by decide)⟩]
    rfl
  obtain ⟨low, high, _, _, hbetween, _, _, hmany⟩ :=
    Environment.exactDistribution_of_presentNumbers hnumbers (by simp)
      (by simp [Number.isFinite_int]) (show (0 : Int) < 2001 by decide)
  have hlow : low ≤ (0 : Int) := (hbetween (.int 0) List.mem_cons_self).1
  have hhigh : ((2001 : Int) : Rat) ≤ high := (hbetween (.int 2001) (by simp)).2
  have hbounds : low < high := (hlow.trans_lt (by norm_num)).trans_le hhigh
  exact ⟨hcells, hmany hbounds (by decide)⟩

end SmallWorld
end Provenance
