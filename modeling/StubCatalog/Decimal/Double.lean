/-! # Double-precision numbers

A double is kept as the integers it is made of, so rounding is exact arithmetic on natural numbers.
-/

namespace StubCatalog

/-- A double-precision number. A finite one is `significand * 2 ^ exponent` up to its sign, where
the significand has 53 bits unless the exponent is the least one. -/
inductive Double where
  | finite (negative : Bool) (significand : Nat) (exponent : Int)
  | infinite (negative : Bool)
  | nan
  deriving DecidableEq, Repr, Inhabited

namespace Double

/-- The exponent of the smallest numbers. -/
def leastExponent : Int := -1074

/-- The exponent of the largest numbers. -/
def greatestExponent : Int := 971

/-- Zero with a sign. -/
def zero (negative : Bool) : Double := .finite negative 0 leastExponent

/-- The number with the other sign. -/
def neg : Double → Double
  | .finite n m e => .finite (!n) m e
  | .infinite n => .infinite (!n)
  | .nan => .nan

/-- The number is zero. -/
def isZero : Double → Bool
  | .finite _ m _ => m == 0
  | _ => false

/-- The number is infinite. -/
def isInfinite : Double → Bool
  | .infinite _ => true
  | _ => false

/-- Equality of values: the two zeros are one value, and what is no number equals nothing. -/
def same (a b : Double) : Bool := (a == b && a != .nan) || (a.isZero && b.isZero)

/-- The quotient `num / den` scaled by `2 ^ (-e)`, as numerator and denominator. -/
def scaled (num den : Nat) (e : Int) : Nat × Nat :=
  if 0 ≤ e then (num, den * Nat.pow 2 e.toNat) else (num * Nat.pow 2 (-e).toNat, den)

/-- The exponent at which `num / den` has a significand of 53 digits, or the least exponent. -/
def exponentFor (num den : Nat) : Int :=
  let guess : Int := (num.log2 : Int) - den.log2 - 52
  let (n, d) := scaled num den guess
  let exact := if n < Nat.pow 2 52 * d then guess - 1 else guess
  max leastExponent exact

/-- `n / d` rounded to the nearest integer, a tie going to the even one. -/
def roundQuotient (n d : Nat) : Nat :=
  let q := n / d
  let twice := 2 * (n % d)
  if twice < d || (twice == d && q % 2 == 0) then q else q + 1

/-- The double nearest to `num / den`, a tie going to the even significand. -/
def ofQuotient (negative : Bool) (num den : Nat) : Double :=
  if num == 0 then zero negative
  else
    let e := exponentFor num den
    let (n, d) := scaled num den e
    let m := roundQuotient n d
    let (m, e) := if m == Nat.pow 2 53 then (Nat.pow 2 52, e + 1) else (m, e)
    if e > greatestExponent then .infinite negative else .finite negative m e

/-- The double nearest to `digits * 10 ^ power`, where `digits` is written with `count` digits. A
number beyond the range of doubles is not computed. -/
def ofDecimal (negative : Bool) (digits : Nat) (count : Nat) (power : Int) : Double :=
  if digits == 0 || power + count < -400 then zero negative
  else if power > 400 then .infinite negative
  else if 0 ≤ power then ofQuotient negative (digits * Nat.pow 10 power.toNat) 1
  else ofQuotient negative digits (Nat.pow 10 (-power).toNat)

/-- The number closest to an integer. -/
def ofInt (n : Int) : Double := ofQuotient (n < 0) n.natAbs 1

/-- The integer part of a number. -/
def toInt? : Double → Option Int
  | .finite negative m e =>
    let signed (n : Nat) : Int := if negative then -(n : Int) else n
    if 0 ≤ e then some (signed (m * Nat.pow 2 e.toNat))
    else if m % Nat.pow 2 (-e).toNat == 0 then some (signed (m / Nat.pow 2 (-e).toNat))
    else none
  | _ => none

end Double

end StubCatalog
