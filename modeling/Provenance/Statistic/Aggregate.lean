-- SUMMARY: Sums by the rules of engines, means, deviations, extremes and histograms.
import Provenance.Value
import Provenance.Error
import Provenance.Statistic.Interval

/-!
# Aggregates of numbers

Sums, means, deviations and extremes of the numbers in a column, in the order of its rows. A sum of
integers stays an integer as long as it fits into 64 bits and fails when it leaves them; from the
first double on the sum is that of doubles. How these are added, and what a double does for a sum that
has left the word before it, differs between the versions of an engine.
-/
namespace Provenance

instance natCastFloat : NatCast Float := ⟨Float.ofNat⟩

/-- How an engine adds up numbers. -/
class inductive Summation where
  /-- Doubles are added as they come. An integer sum that has left the word fails for good. This is the
  rule of SQLite before version 3.43. -/
  | plain
  /-- What rounding drops is kept beside the sum and added to it in the end. An integer sum that has
  left the word fails unless a double follows. This is the rule since then. -/
  | compensated

/-- The rule of the engine that programs are run on, unless another is given. -/
instance engineSummation : Summation := .plain

namespace Number

/-- The running sum: of the integers exactly, and of all numbers as doubles. The correction is what
rounding has dropped from the sum of doubles. -/
structure Sum where
  approximate : Float
  correction : Float
  exact : Int
  hasReal : Bool
  overflowed : Bool

namespace Sum

def zero : Sum := ⟨0.0, 0.0, 0, false, false⟩

/-! ### Doubles added as they come -/

def addPlain (s : Sum) : Number → Sum
  | int n =>
    let s := { s with approximate := s.approximate + Float.ofInt n }
    if s.hasReal || s.overflowed then s
    else if inWord (s.exact + n) then { s with exact := s.exact + n }
    else { s with hasReal := true, overflowed := true }
  | real x => { s with approximate := s.approximate + x, hasReal := true }

/-! ### Doubles added with a correction -/

/-- Adds a double, and to the correction what the rounding of the sum drops. -/
def compensate (s : Sum) (x : Float) : Sum :=
  let sum := s.approximate + x
  let dropped :=
    if s.approximate.abs > x.abs then (s.approximate - sum) + x else (x - sum) + s.approximate
  { s with approximate := sum, correction := s.correction + dropped }

/-- The part of an integer that is added for itself: the last bits of one that has more than a double
surely holds. -/
def lowPart (n : Int) : Int := if 1 <<< 52 ≤ n.natAbs then n.tmod 16384 else 0

def compensateInt (s : Sum) (n : Int) : Sum :=
  (s.compensate (Float.ofInt (n - lowPart n))).compensate (Float.ofInt (lowPart n))

/-- Goes on in doubles from the sum of integers. -/
def widen (s : Sum) : Sum :=
  { s with
    approximate := Float.ofInt (s.exact - lowPart s.exact)
    correction := Float.ofInt (lowPart s.exact)
    hasReal := true }

def addCompensated (s : Sum) : Number → Sum
  | int n =>
    if s.hasReal then s.compensateInt n
    else if inWord (s.exact + n) then { s with exact := s.exact + n }
    else { s.widen.compensateInt n with overflowed := true }
  | real x => { (if s.hasReal then s else s.widen).compensate x with overflowed := false }

/-! ### Sums of lists -/

variable [rule : Summation]

def add (s : Sum) (n : Number) : Sum :=
  match rule with
  | .plain => s.addPlain n
  | .compensated => s.addCompensated n

def ofList (ns : List Number) : Sum := ns.foldl add zero

/-- The sum as that of doubles. A correction that is not finite is dropped. -/
def rounded (s : Sum) : Float :=
  match rule with
  | .plain => s.approximate
  | .compensated =>
    if !s.hasReal then Float.ofInt s.exact
    else if s.correction.isFinite then s.approximate + s.correction
    else s.approximate

/-- The sum as a double. An integer sum that left the word is an error. -/
def total (s : Sum) : Except Error Float :=
  if s.overflowed then .error .statementFailed
  else if s.hasReal then .ok s.rounded
  else .ok (Float.ofInt s.exact)

/-- There is no sum of opposite infinities. -/
def isMissing (s : Sum) : Bool := s.hasReal && s.rounded.isNaN

end Sum

/-- The square. That of an integer is a double when it does not fit into 64 bits. -/
def square : Number → Number
  | int n => if inWord (n * n) then int (n * n) else real (Float.ofInt n * Float.ofInt n)
  | real x => real (x * x)

section Summation

variable [Summation]

/-- The mean of the numbers as doubles; there is none without numbers, nor of opposite infinities. -/
def mean (ns : List Number) : Option Float :=
  let m := (Sum.ofList ns).rounded / Float.ofNat ns.length
  if ns.isEmpty || m.isNaN then none else some m

/-- The sample standard deviation; there is none of fewer than two numbers. That two or more have no
sum is an error. Squares always have one, as none is negative. -/
def deviation (ns : List Number) : Except Error (Option Float) := do
  let sum := Sum.ofList ns
  let total ← sum.total
  let squares ← (Sum.ofList (ns.map square)).total
  if ns.length < 2 then return none
  if sum.isMissing then throw .noSum
  let variance := sampleVariance ns.length total squares
  return some (if 0.0 > variance then 0.0 else variance).sqrt

end Summation

/-- The least number of a list. -/
def minimum : List Number → Number
  | [] => int 0
  | n :: ns => ns.foldl (fun low m => if m.lt low then m else low) n

/-- The greatest number of a list. -/
def maximum : List Number → Number
  | [] => int 0
  | n :: ns => ns.foldl (fun high m => if high.lt m then m else high) n

/-- A bound that is no number compares with nothing. -/
def comparison : Comparison Number Float where
  atLeast n bound := (real bound).le n
  below n bound := n.lt (real bound)
  atMost n bound := n.le (real bound)

/-- Bins of equal width between the least and the greatest number. -/
def bins (ns : List Number) (count : Nat) : List (Interval Float) :=
  binsBetween (minimum ns).toFloat (maximum ns).toFloat count

end Number

/-- The bounds of an interval in brackets. -/
def Interval.describe (i : Interval Float) : String :=
  "[" ++ Decimal.shortest i.low ++ ", " ++ Decimal.shortest i.high ++ "]"

/-! ## Histograms -/

/-- Counts by value, where the absent value counts too. -/
structure Histogram where
  counts : List (Option String × Nat)
  deriving DecidableEq

namespace Histogram

def empty : Histogram := ⟨[]⟩

/-- The value gets the count; a known value keeps its place. -/
def record (h : Histogram) (value : Option String) (count : Nat) : Histogram :=
  if h.counts.any (·.1 = value) then
    ⟨h.counts.map fun entry => if entry.1 = value then (value, count) else entry⟩
  else ⟨h.counts ++ [(value, count)]⟩

def ofCounts (counts : List (Option String × Nat)) : Histogram :=
  counts.foldl (fun h entry => h.record entry.1 entry.2) empty

def isEmpty (h : Histogram) : Bool := h.counts.isEmpty

/-- The values counted, in ascending order of their counts and then of the values. -/
def ofValues (vs : List Value) : Histogram :=
  let counted := (Value.distinctGroups vs).map fun v =>
    (v, vs.countP fun w => decide (w.canonical = v.canonical))
  let sorted := counted.mergeSort fun a b => a.2 < b.2 || (a.2 = b.2 && a.1.le b.1)
  ofCounts (sorted.map fun entry => (entry.1.text?, entry.2))

end Histogram
end Provenance
