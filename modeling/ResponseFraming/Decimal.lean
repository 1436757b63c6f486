/-!
# Binary numbers in decimal

A `Binary64` is a binary floating-point number of 64 bits.  `ofDecimal` rounds a decimal number to
the nearest one, and `shortest` finds the decimal number with the fewest digits that rounds to a
given one.  Both compute with natural numbers only.
-/

namespace ResponseFraming

inductive Binary64
  /-- The number `mantissa * 2 ^ exponent`, with its sign. -/
  | finite (negative : Bool) (mantissa : Nat) (exponent : Int)
  | infinity (negative : Bool)
  | nan
deriving DecidableEq, Repr

namespace Binary64

/-- The quotient rounded to the nearest natural number, a half to the even one. -/
def roundDiv (n d : Nat) : Nat :=
  let q := n / d
  let twice := 2 * (n % d)
  if twice < d then q else if d < twice then q + 1 else q + q % 2

/-- `n * 2 ^ e * 10 ^ f` as numerator and denominator. -/
def ratio (n : Nat) (e f : Int) : Nat × Nat :=
  (n <<< e.toNat * Nat.pow 10 f.toNat, 1 <<< (-e).toNat * Nat.pow 10 (-f).toNat)

/-- The exponent of the last of 53 binary digits of `n / d`, or the least exponent there is. -/
def lastPlace (n d : Nat) : Int :=
  let guess : Int := (n.log2 : Int) - d.log2 - 53
  let (a, b) := ratio 1 guess 0
  max (if n * b < 1 <<< 53 * d * a then guess else guess + 1) (-1074)

/-- The nearest number to `digits * 10 ^ exponent`, of two the even one; from half a unit of the
last place above the largest finite number on, infinity. -/
def ofDecimal (negative : Bool) (digits : Nat) (exponent : Int) : Binary64 :=
  let places : Int := exponent + (Nat.toDigits 10 digits).length
  if digits = 0 ∨ places < -330 then finite negative 0 0
  else if 310 < places then infinity negative
  else
    let (n, d) := ratio digits 0 exponent
    let q := lastPlace n d
    let (a, b) := ratio 1 q 0
    let mantissa := roundDiv (n * b) (d * a)
    if 1 <<< 1024 ≤ mantissa <<< q.toNat then infinity negative
    else if mantissa = 1 <<< 53 then finite negative (1 <<< 52) (q + 1)
    else finite negative mantissa q

/-- Whether `c * 10 ^ place` is positive and rounds to `mantissa * 2 ^ exponent`.  The numbers that
round to it reach half way to the next number on either side, and the ends belong to them when the
mantissa is even. -/
def roundsTo (mantissa : Nat) (exponent place : Int) (c : Nat) : Bool :=
  let (n, d) := ratio 1 (exponent - 2) (-place)
  let below := if mantissa = 1 <<< 52 ∧ -1074 < exponent then 1 else 2
  let low := (4 * mantissa - below) * n
  let high := (4 * mantissa + 2) * n
  c ≠ 0 && (if mantissa % 2 = 0 then low ≤ c * d && c * d ≤ high
    else low < c * d && c * d < high)

/-- The multiple of `10 ^ place` that rounds to `mantissa * 2 ^ exponent` and is nearest to it, if
there is one; of two that are as near, the larger. -/
def onGrid? (mantissa : Nat) (exponent place : Int) : Option Nat :=
  let (n, d) := ratio 1 (exponent - 2) (-place)
  let value := 4 * mantissa * n
  let c := value / d
  match roundsTo mantissa exponent place c, roundsTo mantissa exponent place (c + 1) with
  | true, true => some (if value - c * d < (c + 1) * d - value then c else c + 1)
  | true, false => some c
  | false, true => some (c + 1)
  | false, false => none

/-- Digits and decimal exponent with the fewest digits: the coarsest grid that has a number. -/
def shortest (mantissa : Nat) (exponent : Int) : Nat × Int :=
  ((List.range 660).findSome? fun (i : Nat) =>
    (onGrid? mantissa exponent (310 - (i : Int))).map (·, 310 - (i : Int))).getD (0, 0)

/-- A decimal number without an exponent, with a point and at least one digit on either side. -/
def positional (digits : Nat) (place : Int) : String :=
  let written := Nat.toDigits 10 digits ++ List.replicate place.toNat '0'
  let fraction := (-place).toNat
  if fraction = 0 then String.ofList (written ++ ['.', '0'])
  else
    let padded := List.replicate (fraction + 1 - written.length) '0' ++ written
    let whole := padded.length - fraction
    String.ofList (padded.take whole ++ '.' :: padded.drop whole)

def sign (negative : Bool) : String := if negative then "-" else ""

def text : Binary64 → String
  | finite negative 0 _ => sign negative ++ "0.0"
  | finite negative mantissa exponent =>
    let (digits, place) := shortest mantissa exponent
    sign negative ++ positional digits place
  | infinity negative => sign negative ++ "inf"
  | nan => "NaN"

end Binary64

end ResponseFraming
