-- SUMMARY: Numbers that cells hold, compared by their exact values.
import Provenance.Number.Exact

/-!
# Numbers

A number held by a cell is an integer or a double. The two are compared by their exact values: an
integer that no double can hold is still told apart from its neighbours.
-/
namespace Provenance

inductive Number where
  | int (n : Int)
  | real (x : Float)
  deriving DecidableEq

namespace Number

/-- The first size that 64 bits with a sign cannot hold. -/
def wordLimit : Nat := 1 <<< 63

/-- The signed range of 64 bits, outside of which an integer is not held exactly. -/
def inWord (n : Int) : Bool := -(wordLimit : Int) ≤ n && n < (wordLimit : Int)

/-- The nearest double. -/
def toFloat : Number → Float
  | int n => Float.ofInt n
  | real x => x

/-- Exact values ordered from minus to plus infinity; a double that is no number has none. -/
inductive Magnitude where
  | below
  | at (q : Rat)
  | above

def magnitude? : Number → Option Magnitude
  | int n => some (.at n)
  | real x =>
    match Exact.ofFloat x with
    | .notANumber => none
    | .infinite negative => some (if negative then .below else .above)
    | .finite negative mantissa exponent => some (.at (Exact.toRat negative mantissa exponent))

def Magnitude.le : Magnitude → Magnitude → Bool
  | .below, _ => true
  | _, .above => true
  | .at p, .at q => p ≤ q
  | _, _ => false

/-- Order by exact values, `a ≤ b`; false when either is no number. -/
protected def le : Number → Number → Bool
  | int m, int n => m ≤ n
  | a, b =>
    match a.magnitude?, b.magnitude? with
    | some p, some q => p.le q
    | _, _ => false

/-- Strict order by exact values, `a < b`; false when either is no number. -/
protected def lt : Number → Number → Bool
  | int m, int n => m < n
  | a, b =>
    match a.magnitude?, b.magnitude? with
    | some p, some q => !q.le p
    | _, _ => false

end Number
end Provenance
