-- SUMMARY: The variance made in one pass is the sample variance.
import Provenance.Proofs.Distributions

/-!
# The sample variance

A deviation is the root of a variance, and the variance is made in one pass from the number of numbers,
their sum and the sum of their squares; the mean is never computed. In exact arithmetic it is the sum of
the squared differences from the mean over one less than the number of numbers, so it is never negative,
and it is nought only where all numbers are the same.
-/
namespace Provenance

/-! ## Squared differences from the mean -/

def mean (xs : List Rat) : Rat := xs.sum / xs.length

/-- The sum of the squared differences from the mean. -/
def spread (xs : List Rat) : Rat := (xs.map fun x => (x - mean xs) ^ 2).sum

variable {xs : List Rat}

theorem mul_mean (hsome : xs ≠ []) : (xs.length : Rat) * mean xs = xs.sum := by
  have hne : (xs.length : Rat) ≠ 0 := by simpa using hsome
  rw [mean]
  field_simp

/-- Differences from any number are squared with the sums alone. -/
theorem sum_squared_differences (m : Rat) (xs : List Rat) : (xs.map fun x => (x - m) ^ 2).sum =
    (xs.map fun x => x * x).sum - 2 * m * xs.sum + xs.length * m ^ 2 := by
  induction xs with
  | nil => simp
  | cons x xs ih =>
    simp only [List.map_cons, List.sum_cons, List.length_cons, ih]
    push_cast
    ring

theorem spread_eq (hsome : xs ≠ []) :
    spread xs = (xs.map fun x => x * x).sum - xs.sum * xs.sum / xs.length := by
  have hne : (xs.length : Rat) ≠ 0 := by simpa using hsome
  calc
    spread xs = (xs.map fun x => x * x).sum - 2 * mean xs * xs.sum + xs.length * mean xs ^ 2 :=
      sum_squared_differences (mean xs) xs
    _ = (xs.map fun x => x * x).sum - mean xs * (xs.length * mean xs) := by
      rw [← mul_mean hsome]
      ring
    _ = (xs.map fun x => x * x).sum - xs.sum * xs.sum / xs.length := by
      rw [mul_mean hsome, mean]
      ring

theorem spread_nonneg (xs : List Rat) : 0 ≤ spread xs := by
  refine List.sum_nonneg fun d hd => ?_
  obtain ⟨x, _, rfl⟩ := List.mem_map.mp hd
  exact sq_nonneg _

/-- Equal numbers are their mean, and numbers that are all their mean are equal. -/
theorem spread_eq_zero_iff : spread xs = 0 ↔ ∀ x ∈ xs, ∀ y ∈ xs, x = y := by
  constructor
  · intro hzero
    have hmean : ∀ x ∈ xs, x = mean xs := by
      intro x hx
      have hsquare : (x - mean xs) ^ 2 = 0 := by
        refine List.all_zero_of_le_zero_le_of_sum_eq_zero (fun d hd => ?_) hzero
          (List.mem_map.mpr ⟨x, hx, rfl⟩)
        obtain ⟨y, _, rfl⟩ := List.mem_map.mp hd
        exact sq_nonneg _
      exact sub_eq_zero.mp (pow_eq_zero_iff two_ne_zero |>.mp hsquare)
    exact fun x hx y hy => (hmean x hx).trans (hmean y hy).symm
  · intro hsame
    refine List.sum_eq_zero fun d hd => ?_
    obtain ⟨x, hx, rfl⟩ := List.mem_map.mp hd
    have hsome : xs ≠ [] := List.ne_nil_of_mem hx
    have hsum : xs.sum = xs.length * x := by
      rw [List.eq_replicate_of_mem fun y hy => hsame y hy x hx, List.sum_replicate,
        List.length_replicate, nsmul_eq_mul]
    have hne : (xs.length : Rat) ≠ 0 := by simpa using hsome
    have hmean : mean xs = x := by
      rw [mean, hsum]
      field_simp
    rw [hmean, sub_self, zero_pow two_ne_zero]

/-! ## The deviation in any arithmetic -/

section Arithmetic

variable {α β γ : Type} [Sub α] [Mul α] [Div α] [NatCast α] [LT α] [DecidableLT α]

/-- The deviation of numbers from their sum and that of their squares. Some arithmetics have numbers
whose sum is missing. A variance below nought counts as nought. -/
def deviationIn (zero : α) (sum squares : List β → Except Error α) (missing : List β → Bool)
    (root : α → γ) (ns : List β) : Except Error (Option γ) := do
  let total ← sum ns
  let squares ← squares ns
  if ns.length < 2 then return none
  if missing ns then throw .noSum
  let variance := sampleVariance ns.length total squares
  return some (root (if zero > variance then zero else variance))

/-- The program computes in doubles. -/
theorem Number.deviation_eq_deviationIn [Summation] (ns : List Number) : Number.deviation ns =
    deviationIn 0.0 (fun ns => (Number.Sum.ofList ns).total)
      (fun ns => (Number.Sum.ofList (ns.map Number.square)).total)
      (fun ns => (Number.Sum.ofList ns).isMissing) Float.sqrt ns := rfl

end Arithmetic

/-- What the root is taken of, computed exactly. -/
def exactVariance (xs : List Rat) : Except Error (Option Rat) :=
  deviationIn 0 (fun xs => .ok xs.sum) (fun xs => .ok (xs.map fun x => x * x).sum) (fun _ => false)
    id xs

theorem sampleVariance_eq (htwo : 2 ≤ xs.length) :
    sampleVariance xs.length xs.sum (xs.map fun x => x * x).sum = spread xs / (xs.length - 1) := by
  have hsome : xs ≠ [] := by
    rintro rfl
    simp at htwo
  rw [sampleVariance, ← spread_eq hsome, Nat.cast_sub (by omega), Nat.cast_one]

theorem pred_length_pos (htwo : 2 ≤ xs.length) : 0 < (xs.length : Rat) - 1 := by
  have hcast : (2 : Rat) ≤ xs.length := by exact_mod_cast htwo
  linarith

theorem variance_nonneg (htwo : 2 ≤ xs.length) : 0 ≤ spread xs / (xs.length - 1) :=
  div_nonneg (spread_nonneg xs) (pred_length_pos htwo).le

theorem exactVariance_of_two_le (htwo : 2 ≤ xs.length) :
    exactVariance xs = .ok (some (spread xs / (xs.length - 1))) := by
  have hfew : ¬ xs.length < 2 := not_lt.mpr htwo
  have hclamp : ¬ 0 > spread xs / ((xs.length : Rat) - 1) := not_lt.mpr (variance_nonneg htwo)
  simp only [exactVariance, deviationIn, ok_bind, if_neg hfew, sampleVariance_eq htwo, if_neg hclamp]
  rfl

/-- Made from the two sums, the variance of two numbers or more is that of the squared differences from the
mean. So it is not negative, nothing is made of it that it is not, and it is nought only for equal
numbers. -/
theorem exactVariance_eq (htwo : 2 ≤ xs.length) :
    exactVariance xs = .ok (some (sampleVariance xs.length xs.sum (xs.map fun x => x * x).sum)) ∧
      let variance := sampleVariance xs.length xs.sum (xs.map fun x => x * x).sum
      variance = (xs.map fun x => (x - xs.sum / xs.length) ^ 2).sum / ((xs.length : Rat) - 1) ∧
      0 ≤ variance ∧ (if 0 > variance then 0 else variance) = variance ∧
      (variance = 0 ↔ ∀ x ∈ xs, ∀ y ∈ xs, x = y) := by
  have heq := sampleVariance_eq htwo
  have hnonneg := variance_nonneg htwo
  have hzero : spread xs / ((xs.length : Rat) - 1) = 0 ↔ ∀ x ∈ xs, ∀ y ∈ xs, x = y := by
    rw [div_eq_zero_iff, or_iff_left (pred_length_pos htwo).ne', spread_eq_zero_iff]
  have hsome := exactVariance_of_two_le htwo
  rw [← heq] at hnonneg hzero hsome
  exact ⟨hsome, heq, hnonneg, if_neg (not_lt.mpr hnonneg), hzero⟩

/-- The numbers one, two and three. -/
theorem exactVariance_eq_three : exactVariance [1, 2, 3] = .ok (some 1) := by
  have htwo : 2 ≤ ([1, 2, 3] : List Rat).length := by decide
  obtain ⟨hvariance, heq, _⟩ := exactVariance_eq htwo
  rw [hvariance, heq]
  norm_num

/-! ## The instruction -/

namespace Environment

variable {env : Environment} {s : Store} {e : Element} {key : String} {g : GraphRef}

/-- What is made of the numbers that are present in the scope of a graph. -/
def deviationOf {γ : Type} (env : Environment) (deviation : List Number → Except Error (Option γ))
    (graph : GraphRef) (e : Element) (key : String) : Program (Option γ) := do
  MonadExcept.ofExcept (deviation (← env.presentNumbers graph e key))

theorem standardDeviation_eq_deviationOf [Summation] :
    env.standardDeviation g e key = env.deviationOf Number.deviation g e key := rfl

/-- The instruction computed exactly answers with the variance of the exact values. -/
theorem deviationOf_exactVariance (hbase : env.Readable s.database .base)
    (hg : env.Readable s.database g) (hkey : env.HasColumns s.database e [key]) :
    ∃ table? cells, env.restriction? g e = .ok table? ∧
      env.cellsInScope s.database e table? key = .ok cells ∧
      let xs := ((cells.filter isPresent).map numberOf).map Number.exact
      2 ≤ xs.length →
        (env.deviationOf (fun ns => exactVariance (ns.map Number.exact)) g e key).perform s =
          (.ok (some (spread xs / (xs.length - 1))), s) := by
  obtain ⟨table?, cells, htable, hcells, hvalues⟩ := exists_presentValues hbase hg hkey
  have hnumbers : (env.presentNumbers g e key).perform s =
      (.ok ((cells.filter isPresent).map numberOf), s) :=
    (Program.perform_bind_of_ok hvalues).trans rfl
  refine ⟨table?, cells, htable, hcells, fun htwo => ?_⟩
  refine (Program.perform_bind_of_ok hnumbers).trans ?_
  dsimp only
  rw [exactVariance_of_two_le htwo]
  rfl

end Environment
end Provenance
