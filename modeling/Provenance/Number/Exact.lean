-- SUMMARY: The exact value of a finite double, and the double nearest to a product with a power of two.
/-!
# The exact value of a double

A finite double is an integer times a power of two. Comparisons of doubles with integers, and the
decimal text of a double, are computed from that value and not from rounded arithmetic. `nearest`
goes back from such a product to a double.
-/
namespace Provenance

/-- What a double stands for: `mantissa * 2 ^ exponent` with a sign, an infinity, or no number. -/
inductive Exact where
  | notANumber
  | infinite (negative : Bool)
  | finite (negative : Bool) (mantissa : Nat) (exponent : Int)
  deriving DecidableEq

namespace Exact

/-- The bit before the fraction of a normal number, which is not written down. -/
def hiddenBit : Nat := 1 <<< 52

/-- The bits of a double: one sign bit, eleven of biased exponent, fifty-two of fraction. The
hidden bit is absent below the least normal number. -/
def ofFloat (x : Float) : Exact :=
  let bits := x.toBits.toNat
  let negative := bits >>> 63 == 1
  let biased := (bits >>> 52) % 2048
  let fraction := bits % hiddenBit
  if biased = 2047 then
    if fraction = 0 then infinite negative else notANumber
  else if biased = 0 then finite negative fraction (-1074)
  else finite negative (fraction + hiddenBit) (Int.ofNat biased - 1075)

/-- The quotient `num / den` to the nearest integer; a half goes to the even neighbour. -/
def roundDiv (num den : Nat) : Nat :=
  let q := num / den
  let r := num % den
  if 2 * r < den then q
  else if den < 2 * r then q + 1
  else if q % 2 = 0 then q else q + 1

/-- The least exponent of a double's last bit. -/
def leastExponent : Int := -1074

/-- The double nearest to `mantissa * 2 ^ exponent`. Its bits are its last place and the mantissa
counted in it, added up: the hidden bit carries into the exponent, and so does a mantissa rounded up
to the next power of two. -/
def nearest (mantissa : Nat) (exponent : Int) : Float :=
  let place := max leastExponent (exponent + mantissa.log2 - 52)
  let count :=
    if place ≤ exponent then mantissa <<< (exponent - place).toNat
    else roundDiv mantissa (1 <<< (place - exponent).toNat)
  let bits := ((place - leastExponent).toNat <<< 52) + count
  if mantissa = 0 then 0.0
  else if 2047 <<< 52 ≤ bits then 1.0 / 0.0
  else Float.ofBits (UInt64.ofNat bits)

/-- The rational value of a finite double. -/
def toRat (negative : Bool) (mantissa : Nat) (exponent : Int) : Rat :=
  let size : Rat :=
    if 0 ≤ exponent then ((mantissa <<< exponent.toNat : Nat) : Rat)
    else mkRat mantissa (1 <<< (-exponent).toNat)
  if negative then -size else size

end Exact
end Provenance
