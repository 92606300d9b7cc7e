-- SUMMARY: The three rules by which a text is read as a number.
import Provenance.Number
import Provenance.Number.Extended
import Provenance.Text.Blank
import Provenance.Text.Digit

/-!
# Reading numbers from text

Annotations hold text, and three rules say which number a text stands for. `Number.ofText` takes
the longest numeric beginning and is zero without one: this is how statistics read an annotation.
`Number.ofNumericText?` wants the whole text to be a number: this is how an id enters a table whose
ids are integers. `readFloat?` is the freer rule of in-memory comparisons, with digits of all
scripts, underscores between digits, infinities and not-a-number. The last reads the nearest double.
The other two read `Literal.scaled`, which is computed in extended precision.
-/
namespace Provenance

/-- A decimal literal: `mantissa * 10 ^ exponent` with a sign. It is an integer when it was written
without point and exponent. -/
structure Literal where
  negative : Bool
  mantissa : Nat
  exponent : Int
  isInteger : Bool

namespace Literal

def isAsciiDigit (c : Char) : Bool := '0' ≤ c && c ≤ '9'

/-- The digits at the start of a text, and what follows them. -/
def digits (cs : List Char) : List Char × List Char :=
  (cs.takeWhile isAsciiDigit, cs.dropWhile isAsciiDigit)

def ofDigits (ds : List Char) : Nat :=
  ds.foldl (fun n d => 10 * n + (d.toNat - '0'.toNat)) 0

/-- A sign at the start of a text, and what follows it. -/
def sign : List Char → Bool × List Char
  | '-' :: cs => (true, cs)
  | '+' :: cs => (false, cs)
  | cs => (false, cs)

/-- The exponent part at the start of a text. Without a digit there is none, and nothing is read. -/
def exponentPart? : List Char → Option (Int × List Char)
  | c :: cs =>
    if c = 'e' || c = 'E' then
      let (negative, rest) := sign cs
      let (ds, rest) := digits rest
      if ds.isEmpty then none
      else some (if negative then -(ofDigits ds : Int) else ofDigits ds, rest)
    else none
  | [] => none

/-- The fraction digits at the start of a text, if there is a point. -/
def fractionPart? : List Char → Option (List Char × List Char)
  | '.' :: cs => some (digits cs)
  | _ => none

/-- The longest literal at the start of a text, and what follows it. A literal has a digit on at
least one side of the point. -/
def scan? (cs : List Char) : Option (Literal × List Char) :=
  let (negative, cs) := sign cs
  let (whole, cs) := digits cs
  let (fraction, hasPoint, cs) :=
    match fractionPart? cs with
    | some (fraction, rest) => (fraction, true, rest)
    | none => ([], false, cs)
  if whole.isEmpty && fraction.isEmpty then none
  else
    let (power, hasPower, rest) :=
      match exponentPart? cs with
      | some (power, rest) => (power, true, rest)
      | none => (0, false, cs)
    some (⟨negative, ofDigits (whole ++ fraction), power - fraction.length,
      !hasPoint && !hasPower⟩, rest)

def toInt (l : Literal) : Int := if l.negative then -(l.mantissa : Int) else l.mantissa

/-- The nearest double. Literals far outside the range of doubles are zero or infinite, whatever
their digits. -/
def nearest (l : Literal) : Float :=
  let magnitude : Int := (toString l.mantissa).length + l.exponent
  let size : Float :=
    if l.mantissa = 0 || magnitude < -400 then 0.0
    else if 400 < magnitude then 1.0 / 0.0
    else Float.ofScientific l.mantissa (l.exponent < 0) l.exponent.natAbs
  if l.negative then -size else size

/-! ## In extended precision -/

/-- From this mantissa on no digit more is read: it could leave a word of sixty-three bits. -/
def fullMantissa : Nat := ((1 <<< 63) - 10) / 10

/-- The digits that are read: as many as it takes to fill the mantissa. Those dropped only raise the
exponent. -/
def significant (mantissa : Nat) (exponent : Int) : Nat × Int :=
  let spare := (toString mantissa).length - 19
  let head := mantissa / Nat.pow 10 spare
  if fullMantissa ≤ head / 10 then (head / 10, exponent + spare + 1) else (head, exponent + spare)

/-- The exponent brought nearer to zero without a change of the number, in at most `fuel` steps. -/
def balance : Nat → Nat → Int → Nat × Int
  | 0, mantissa, exponent => (mantissa, exponent)
  | fuel + 1, mantissa, exponent =>
    if 0 < exponent && mantissa ≤ fullMantissa then balance fuel (10 * mantissa) (exponent - 1)
    else if exponent < 0 && mantissa % 10 = 0 then balance fuel (mantissa / 10) (exponent + 1)
    else (mantissa, exponent)

/-- The product of a mantissa that is not zero and a power of ten, which is rounded itself. Beyond the
powers that a double holds, the last step is one of doubles. -/
def product (mantissa : Nat) (exponent : Int) : Float :=
  let size := Extended.ofNat mantissa
  let power := exponent.natAbs
  if exponent = 0 then size.toFloat
  else if power ≤ 307 then
    if exponent < 0 then (size.div (.tenTo power)).toFloat else (size.mul (.tenTo power)).toFloat
  else if power < 342 then
    if exponent < 0 then (size.div (.tenTo (power - 308))).toFloat / 1e308
    else (size.mul (.tenTo (power - 308))).toFloat * 1e308
  else if exponent < 0 then 0.0
  else 1.0 / 0.0

/-- The double that a database reads, which may be a neighbour of the nearest one. -/
def scaled (l : Literal) : Float :=
  let (mantissa, exponent) := significant l.mantissa l.exponent
  let (mantissa, exponent) := balance 20 mantissa exponent
  let size := if mantissa = 0 then 0.0 else product mantissa exponent
  if l.negative then -size else size

/-- The double at the start of a text; zero if there is none. -/
def readScaled (s : String) : Float :=
  match scan? s.toList with
  | some (l, _) => l.scaled
  | none => 0.0

end Literal

namespace Number

/-- The integer that a double is, if it is one. -/
def wholeOf? (x : Float) : Option Int :=
  match Exact.ofFloat x with
  | .finite negative mantissa exponent =>
    let size : Option Nat :=
      if 0 ≤ exponent then some (mantissa <<< exponent.toNat)
      else if mantissa % (1 <<< (-exponent).toNat) = 0 then some (mantissa >>> (-exponent).toNat)
      else none
    size.map fun n => if negative then -(n : Int) else n
  | _ => none

/-- A double as an integer if it is whole and the integer is in range. -/
def ofFloat (inRange : Int → Bool) (x : Float) : Number :=
  match wholeOf? x with
  | some n => if inRange n then int n else real x
  | none => real x

/-- An integer literal that fits into a word is an integer; any other is a double, or that double as
an integer. -/
def ofLiteral (inRange : Int → Bool) (l : Literal) : Number :=
  if l.isInteger && inWord l.toInt then int l.toInt else ofFloat inRange l.scaled

def isAsciiBlank (c : Char) : Bool := c = ' ' || ('\t' ≤ c && c ≤ '\r')

/-- A cast makes an integer of a whole double in this range, of fifty-two bits with a sign. -/
def inCast (n : Int) : Bool := -((1 <<< 51 : Nat) : Int) ≤ n && n < ((1 <<< 51 : Nat) : Int)

/-- A column of integers keeps a whole double in this range as an integer: the ends of the word are
left out. -/
def inColumn (n : Int) : Bool := n.natAbs < wordLimit

/-- Equal numbers have one canonical form: an integer wherever there is an equal one. -/
def canonical : Number → Number
  | int n => int n
  | real x => ofFloat inWord x

/-- The number at the start of a text, blanks skipped; zero if there is none. -/
def ofText (s : String) : Number :=
  match Literal.scan? (s.toList.dropWhile isAsciiBlank) with
  | some (l, _) => ofLiteral inCast l
  | none => int 0

/-- The number that a whole text is, blanks at its ends aside. -/
def ofNumericText? (s : String) : Option Number :=
  match Literal.scan? (s.toList.dropWhile isAsciiBlank) with
  | some (l, rest) => if rest.all isAsciiBlank then some (ofLiteral inColumn l) else none
  | none => none

/-! ## In-memory comparisons -/

/-- Blanks around a number. The four ASCII separators are not among them. -/
def isNumberBlank (c : Char) : Bool :=
  isAsciiBlank c || (0x7F < c.toNat && Text.isBlank c)

/-- The ASCII digit of the same value. -/
def asciiDigit (c : Char) : Char :=
  match Text.digitValue? c with
  | some n => Char.ofNat ('0'.toNat + n)
  | none => c

/-- The text without its underscores, each of which must stand between two digits. -/
def dropUnderscores? : Bool → List Char → Option (List Char)
  | _, [] => some []
  | afterDigit, '_' :: c :: cs =>
    if afterDigit && Literal.isAsciiDigit c then dropUnderscores? false (c :: cs) else none
  | _, c :: cs =>
    if c = '_' then none
    else (dropUnderscores? (Literal.isAsciiDigit c) cs).map (c :: ·)

/-- The infinities and not-a-number, by their names. -/
def named? (name : List Char) : Option Float :=
  let word := String.ofList (Text.lower name)
  if word = "inf" || word = "infinity" then some (1.0 / 0.0)
  else if word = "nan" then some (0.0 / 0.0)
  else none

/-- The double that a whole text is, under the freer rule. -/
def readFloat? (s : String) : Option Float :=
  let cs := ((s.toList.dropWhile isNumberBlank).reverse.dropWhile isNumberBlank).reverse
  match dropUnderscores? false (cs.map asciiDigit) with
  | none => none
  | some cs =>
    let (negative, unsigned) := Literal.sign cs
    match named? unsigned with
    | some x => some (if negative then -x else x)
    | none =>
      match Literal.scan? cs with
      | some (l, []) => some l.nearest
      | _ => none

end Number
end Provenance
