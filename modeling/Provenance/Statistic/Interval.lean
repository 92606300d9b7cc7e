-- SUMMARY: Intervals, bins of equal width, and the counts of a distribution.
/-!
# Intervals and distributions

A distribution counts observations in intervals, in ascending order of the intervals. The bounds of
equal-width bins are computed in whatever arithmetic is given: doubles when the program runs, exact
rationals when the arithmetic itself is studied.
-/
namespace Provenance

structure Interval (α : Type) where
  low : α
  high : α
  deriving DecidableEq

namespace Interval

variable {α : Type}

/-- Intervals are the same when their bounds compare as equal. -/
def same [BEq α] (a b : Interval α) : Bool := a.low == b.low && a.high == b.high

/-- Intervals are ordered by their lower bounds and then by their upper ones. -/
def before [BEq α] [LT α] [DecidableLT α] (a b : Interval α) : Bool :=
  if a.low == b.low then a.high < b.high else a.low < b.low

end Interval

structure Distribution (α : Type) where
  counts : List (Interval α × Nat)

namespace Distribution

variable {α : Type}

/-- The interval gets the count; a known interval keeps its place and its old bounds. -/
def record [BEq α] (d : Distribution α) (i : Interval α) (count : Nat) : Distribution α :=
  if d.counts.any (·.1.same i) then
    ⟨d.counts.map fun entry => if entry.1.same i then (entry.1, count) else entry⟩
  else ⟨d.counts ++ [(i, count)]⟩

/-- The distribution of counted intervals. Of the counts for one interval the last is kept. -/
def ofCounts [BEq α] [LT α] [DecidableLT α] (counts : List (Interval α × Nat)) : Distribution α :=
  let d : Distribution α := counts.foldl (fun d entry => d.record entry.1 entry.2) ⟨[]⟩
  ⟨d.counts.mergeSort fun a b => !b.1.before a.1⟩

def isEmpty (d : Distribution α) : Bool := d.counts.isEmpty

end Distribution

/-! ## Bins -/

/-- As many bins of equal width as `count` says, from `low` to `high`. The last one ends at `high`
itself. -/
def equalBins {α : Type} [Add α] [Sub α] [Mul α] [Div α] [NatCast α] (low high : α)
    (count : Nat) : List (Interval α) :=
  let step := (high - low) / (count : α)
  (List.range count).map fun (i : Nat) =>
    let next := i + 1
    ⟨low + (i : α) * step, if next = count then high else low + (next : α) * step⟩

/-- How observations of one type compare with bounds of another. -/
structure Comparison (β α : Type) where
  /-- The observation is not below the bound. -/
  atLeast : β → α → Bool
  /-- The observation is below the bound. -/
  below : β → α → Bool
  /-- The observation is not above the bound. -/
  atMost : β → α → Bool

/-- An observation lies in a bin from its lower bound up to, and not including, its upper one. The
last bin includes its upper bound. -/
def Comparison.inBin {α β : Type} (cmp : Comparison β α) (isLast : Bool) (i : Interval α) (v : β) :
    Bool :=
  cmp.atLeast v i.low && (if isLast then cmp.atMost v i.high else cmp.below v i.high)

/-- The number of observations in each bin. -/
def Comparison.tally {α β : Type} (cmp : Comparison β α) (observed : List β) :
    List (Interval α) → List (Interval α × Nat)
  | [] => []
  | i :: rest => (i, observed.countP (cmp.inBin rest.isEmpty i)) :: cmp.tally observed rest

/-- The bins for observations from `low` to `high`, which are one when the two are equal. -/
def binsBetween {α : Type} [BEq α] [Add α] [Sub α] [Mul α] [Div α] [NatCast α] (low high : α)
    (count : Nat) : List (Interval α) :=
  if high == low then [⟨low, high⟩] else equalBins low high count

/-! ## Variance -/

/-- The sample variance of `n` numbers with this sum and this sum of squares. -/
def sampleVariance {α : Type} [Sub α] [Mul α] [Div α] [NatCast α] (n : Nat)
    (total squares : α) : α :=
  (squares - total * total / (n : α)) / ((n - 1 : Nat) : α)

end Provenance
