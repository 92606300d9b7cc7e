-- SUMMARY: Arithmetic of sixty-four significant bits, as decimal text is read and doubles are written in.
import Provenance.Number.Exact

/-!
# Extended precision

Sizes of at most sixty-four significant bits. An operation rounds its exact result once, a half going
to the even neighbour. A database reads decimal text and writes doubles in this precision: it scales
by powers of ten that are rounded themselves, so a last digit may differ from that of the exact value.
-/
namespace Provenance

/-- The size `mantissa * 2 ^ exponent`. -/
structure Extended where
  mantissa : Nat
  exponent : Int
  deriving DecidableEq

namespace Extended

def precision : Nat := 64

/-! ## Arithmetic -/

/-- The nearest size of at most sixty-four bits. -/
def round (mantissa : Nat) (exponent : Int) : Extended :=
  let excess := mantissa.log2 + 1 - precision
  ⟨Exact.roundDiv mantissa (1 <<< excess), exponent + excess⟩

def ofNat (n : Nat) : Extended := round n 0

/-- The size of a finite double, of which none needs rounding. -/
def ofFloat (x : Float) : Extended :=
  match Exact.ofFloat x with
  | .finite _ mantissa exponent => ⟨mantissa, exponent⟩
  | _ => ⟨0, 0⟩

/-- The nearest double, after a rounding to sixty-four bits and so not always the nearest to the
exact value. -/
def toFloat (a : Extended) : Float := Exact.nearest a.mantissa a.exponent

/-- The mantissa of a size written with a smaller exponent. -/
def aligned (a : Extended) (exponent : Int) : Nat := a.mantissa <<< (a.exponent - exponent).toNat

def le (a b : Extended) : Bool :=
  let exponent := min a.exponent b.exponent
  a.aligned exponent ≤ b.aligned exponent

def add (a b : Extended) : Extended :=
  let exponent := min a.exponent b.exponent
  round (a.aligned exponent + b.aligned exponent) exponent

/-- The difference, zero if `b` is the greater. -/
def sub (a b : Extended) : Extended :=
  let exponent := min a.exponent b.exponent
  round (a.aligned exponent - b.aligned exponent) exponent

def mul (a b : Extended) : Extended := round (a.mantissa * b.mantissa) (a.exponent + b.exponent)

/-- The quotient. Two bits more than needed are computed, and one that tells whether any follow. -/
def div (a b : Extended) : Extended :=
  let shift := precision + b.mantissa.log2 + 2
  let quotient := (a.mantissa <<< shift) / b.mantissa
  let sticky := if (a.mantissa <<< shift) % b.mantissa = 0 then 0 else 1
  round (2 * quotient + sticky) (a.exponent - b.exponent - shift - 1)

/-- The integer part. -/
def whole (a : Extended) : Nat :=
  if 0 ≤ a.exponent then a.mantissa <<< a.exponent.toNat else a.mantissa >>> (-a.exponent).toNat

def ten : Extended := ofNat 10

/-! ## Powers of ten -/

/-- The product of `result` and a power of `base`, by repeated squaring. -/
def powerOf (base result : Extended) (n : Nat) : Extended :=
  let result := if n % 2 = 1 then result.mul base else result
  if n < 2 then result else powerOf (base.mul base) result (n / 2)
termination_by n

def tenTo (n : Nat) : Extended := powerOf ten (ofNat 1) n

/-! ## Decimal digits -/

/-- A scale and its decimal exponent, raised by `places` as long as the scale does not exceed the
value, at most `fuel` times. -/
def climb (value factor : Extended) (places : Int) : Nat → Extended × Int → Extended × Int
  | 0, scale => scale
  | fuel + 1, (scale, power) =>
    let next := factor.mul scale
    if next.le value then climb value factor places fuel (next, power + places) else (scale, power)

/-- A value and its decimal exponent, raised by `places` as long as the value is below a bound, at
most `fuel` times. -/
def lift (bound factor : Extended) (places : Int) : Nat → Extended × Int → Extended × Int
  | 0, value => value
  | fuel + 1, (value, power) =>
    if bound.le value then (value, power)
    else lift bound factor places fuel (value.mul factor, power - places)

/-- A value that is not zero as a size from one up to ten and a decimal exponent. -/
def normalized (value : Extended) : Extended × Int :=
  let one := ofNat 1
  let (scale, power) := climb value (ofFloat 1e100) 100 4 (one, 0)
  let (scale, power) := climb value (ofNat 10000000000) 10 10 (scale, power)
  let (scale, power) := climb value ten 1 10 (scale, power)
  lift one ten 1 10 (lift (ofFloat 1e-8) (ofNat 100000000) 8 50 (value.div scale, power))

/-- The first `count` digits of a size below ten, after those in `digits`. -/
def takeDigits : Nat → Nat → Extended → Nat
  | 0, digits, _ => digits
  | count + 1, digits, a =>
    takeDigits count (10 * digits + a.whole) ((a.sub (ofNat a.whole)).mul ten)

/-- Half a unit of the fifteenth digit of a size below ten. -/
def rounder : Extended := ofFloat (5.0e-5 * 1.0e-10)

/-- A value that is not zero as an integer of `count` digits times a power of ten, which is given by
its exponent. The rounding to the last digit is right for fifteen of them. -/
def decimal (value : Extended) (count : Nat) : Nat × Int :=
  let (size, power) := normalized value
  let size := size.add rounder
  let (size, power) := if ten.le size then (size.mul (ofFloat 0.1), power + 1) else (size, power)
  (takeDigits count 0 size, power - count + 1)

end Extended
end Provenance
