-- SUMMARY: Decimal texts of a double: to given places, shortest and brief.
import Provenance.Number.Extended

/-!
# Decimal text of a double

Three texts are written. `fixed` rounds the exact value to a given number of places, a half going to
the even neighbour. `shortest` writes the fewest digits that read back as the same double, and of
those the nearest. `brief` writes fifteen digits, which are computed in extended precision. The last
two are positional for sizes from `10 ^ -4` up to a bound of each, and exponential outside.
-/
namespace Provenance.Decimal

/-- At least `width` digits, filled with zeros on the left. -/
def padLeft (width n : Nat) : String :=
  let digits := toString n
  String.ofList (List.replicate (width - digits.length) '0') ++ digits

/-! ## A fixed number of places -/

/-- The size of a finite double, with `places` digits after the point. -/
def fixedSize (places mantissa : Nat) (exponent : Int) : String :=
  let units :=
    if 0 ≤ exponent then (mantissa <<< exponent.toNat) * Nat.pow 10 places
    else Exact.roundDiv (mantissa * Nat.pow 10 places) (1 <<< (-exponent).toNat)
  toString (units / Nat.pow 10 places) ++ "." ++ padLeft places (units % Nat.pow 10 places)

def fixed (places : Nat) (x : Float) : String :=
  match Exact.ofFloat x with
  | .notANumber => "nan"
  | .infinite negative => if negative then "-inf" else "inf"
  | .finite negative mantissa exponent =>
    (if negative then "-" else "") ++ fixedSize places mantissa exponent

/-! ## The fewest digits -/

/-- The reals that round to one positive double, over the denominator `den`: from `low` to `high`,
the ends included when `closed`. -/
structure Basin where
  low : Nat
  value : Nat
  high : Nat
  den : Nat
  closed : Bool

/-- Half a unit each way, but only a quarter below a power of two, where the spacing halves. An end
rounds here when the mantissa is even. -/
def Basin.ofParts (mantissa : Nat) (exponent : Int) : Basin :=
  let below := if mantissa = Exact.hiddenBit && -1074 < exponent then 1 else 2
  let scale := if 0 ≤ exponent then 1 <<< exponent.toNat else 1
  { low := (4 * mantissa - below) * scale
    value := 4 * mantissa * scale
    high := (4 * mantissa + 2) * scale
    den := if 0 ≤ exponent then 4 else 4 <<< (-exponent).toNat
    closed := mantissa % 2 = 0 }

/-- The number `digits * 10 ^ exponent`. -/
structure Scaled where
  digits : Nat
  exponent : Int

/-- The least `j ≤ fuel` with `den ≤ value * 10 ^ j`. -/
def leadingZeros (den : Nat) : Nat → Nat → Nat
  | 0, _ => 0
  | fuel + 1, value => if den ≤ value then 0 else leadingZeros den fuel (value * 10) + 1

/-- The `k` for which the value is at least `10 ^ (k - 1)` and below `10 ^ k`. -/
def Basin.position (b : Basin) : Int :=
  if b.den ≤ b.value then (toString (b.value / b.den)).length
  else 1 - (leadingZeros b.den 400 b.value : Int)

/-- The nearest of the value's two neighbours among the multiples of `10 ^ exponent`, if one of
them lies in the basin. -/
def Basin.gridPoint? (b : Basin) (exponent : Int) : Option Nat :=
  let up := Nat.pow 10 (-exponent).toNat
  let unit := b.den * Nat.pow 10 exponent.toNat
  let floor := b.value * up / unit
  let lowHit :=
    if b.closed then b.low * up ≤ floor * unit else b.low * up < floor * unit
  let highHit :=
    if b.closed then (floor + 1) * unit ≤ b.high * up else (floor + 1) * unit < b.high * up
  let toFloor := b.value * up - floor * unit
  let toCeiling := (floor + 1) * unit - b.value * up
  match decide lowHit, decide highHit with
  | false, false => none
  | true, false => some floor
  | false, true => some (floor + 1)
  | true, true =>
    if toFloor < toCeiling then some floor
    else if toCeiling < toFloor then some (floor + 1)
    else some (if floor % 2 = 0 then floor else floor + 1)

/-- The first grid with a hit, beginning with one digit; seventeen digits always suffice. -/
def Basin.shortest (b : Basin) : Nat → Nat → Scaled
  | 0, count => ⟨(b.gridPoint? (b.position - count)).getD 0, b.position - count⟩
  | fuel + 1, count =>
    match b.gridPoint? (b.position - count) with
    | some digits => ⟨digits, b.position - count⟩
    | none => b.shortest fuel (count + 1)

/-- The digits without trailing zeros, at most `fuel` of which are removed. -/
def Scaled.trim : Nat → Scaled → Scaled
  | 0, s => s
  | fuel + 1, s =>
    if s.digits ≠ 0 && s.digits % 10 = 0 then trim fuel ⟨s.digits / 10, s.exponent + 1⟩ else s

/-! ## Layout -/

/-- What may differ between texts of the same digits. -/
structure Layout where
  /-- The most digits that stand before the point of a positional text. -/
  widest : Nat
  /-- What follows the first digit of an exponential text if it is the only one. -/
  loneDigitEnd : String

/-- Positional with at least one digit after the point, or exponential with a signed exponent of at
least two digits. -/
def Layout.write (l : Layout) (s : Scaled) : String :=
  let digits := (toString s.digits).toList
  let position : Int := digits.length + s.exponent
  if -4 < position && position ≤ (l.widest : Int) then
    if position ≤ 0 then
      "0." ++ String.ofList (List.replicate (-position).toNat '0' ++ digits)
    else if 0 ≤ s.exponent then
      String.ofList (digits ++ List.replicate s.exponent.toNat '0') ++ ".0"
    else
      String.ofList (digits.take position.toNat) ++ "." ++
        String.ofList (digits.drop position.toNat)
  else
    let power := position - 1
    let rest := digits.drop 1
    String.ofList (digits.take 1) ++
      (if rest.isEmpty then l.loneDigitEnd else "." ++ String.ofList rest) ++
      "e" ++ (if power < 0 then "-" else "+") ++ padLeft 2 power.natAbs

def Layout.shortest : Layout := ⟨16, ""⟩

def Layout.brief : Layout := ⟨15, ".0"⟩

def shortest (x : Float) : String :=
  match Exact.ofFloat x with
  | .notANumber => "nan"
  | .infinite negative => if negative then "-inf" else "inf"
  | .finite negative mantissa exponent =>
    (if negative then "-" else "") ++
      if mantissa = 0 then "0.0"
      else Layout.shortest.write (((Basin.ofParts mantissa exponent).shortest 16 1).trim 20)

/-- The text that a database makes of a double. It knows no negative zero. -/
def brief (x : Float) : String :=
  match Exact.ofFloat x with
  | .notANumber => "NaN"
  | .infinite negative => if negative then "-Inf" else "Inf"
  | .finite negative mantissa exponent =>
    if mantissa = 0 then "0.0"
    else
      let (digits, power) := (Extended.mk mantissa exponent).decimal 15
      (if negative then "-" else "") ++ Layout.brief.write ((Scaled.mk digits power).trim 20)

end Provenance.Decimal
