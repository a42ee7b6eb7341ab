import StubCatalog.Decimal.Double

/-! # The fewest digits that read back

The text of a double has as few digits as possible among the decimals that round to it: those
between the midpoints to its neighbours, ends included for an even significand. -/

namespace StubCatalog.Double

/-- A fraction. -/
structure Quotient where
  num : Nat
  den : Nat

/-- A number times a power of two. -/
def Quotient.ofBinary (m : Nat) (e : Int) : Quotient :=
  if 0 ≤ e then ⟨m * Nat.pow 2 e.toNat, 1⟩ else ⟨m, Nat.pow 2 (-e).toNat⟩

/-- A number times a power of ten. -/
def Quotient.ofDecimal (d : Nat) (p : Int) : Quotient :=
  if 0 ≤ p then ⟨d * Nat.pow 10 p.toNat, 1⟩ else ⟨d, Nat.pow 10 (-p).toNat⟩

/-- Comparison of fractions. -/
def Quotient.le (a b : Quotient) : Bool := a.num * b.den ≤ b.num * a.den

/-- Strict comparison of fractions. -/
def Quotient.lt (a b : Quotient) : Bool := a.num * b.den < b.num * a.den

/-- The numbers that are rounded to one. -/
structure Rounding where
  low : Quotient
  high : Quotient
  closed : Bool

/-- The interval of a finite double. Below a power of two the neighbour is nearer. -/
def Rounding.of (m : Nat) (e : Int) : Rounding where
  low := if m == Nat.pow 2 52 && e > leastExponent then .ofBinary (4 * m - 1) (e - 2)
    else .ofBinary (2 * m - 1) (e - 1)
  high := .ofBinary (2 * m + 1) (e - 1)
  closed := m % 2 == 0

/-- The fraction is rounded to it. -/
def Rounding.holds (r : Rounding) (q : Quotient) : Bool :=
  if r.closed then r.low.le q && q.le r.high else r.low.lt q && q.lt r.high

/-- The least `k` from `start` on, within `steps`, with `q < 10 ^ k`. -/
def magnitudeFrom (q : Quotient) : Nat → Int → Int
  | 0, k => k
  | steps + 1, k => if q.lt (.ofDecimal 1 k) then k else magnitudeFrom q steps (k + 1)

/-- The `k` with `10 ^ (k - 1) ≤ q < 10 ^ k`, for a positive double `m * 2 ^ e`. -/
def magnitude (m : Nat) (e : Int) : Int :=
  let q := Quotient.ofBinary m e
  let guess := ((m.log2 : Int) + e) * 30103 / 100000 - 1
  magnitudeFrom q 5 guess

/-- The better of the two decimals of one length around the value, if one of them reads back. -/
def nearestAt (m : Nat) (e : Int) (power : Int) : Option Nat :=
  let value := Quotient.ofBinary m e
  let unit := Quotient.ofDecimal 1 power
  let below := value.num * unit.den / (value.den * unit.num)
  let interval := Rounding.of m e
  let lowFits := below > 0 && interval.holds (.ofDecimal below power)
  let highFits := interval.holds (.ofDecimal (below + 1) power)
  let twice : Quotient := ⟨2 * value.num, value.den⟩
  let middle := Quotient.ofDecimal (2 * below + 1) power
  match lowFits, highFits with
  | true, true =>
    if twice.lt middle then some below
    else if middle.lt twice then some (below + 1)
    else some (if below % 2 == 0 then below else below + 1)
  | true, false => some below
  | false, true => some (below + 1)
  | false, false => none

/-- The shortest decimal with at most `left` digits more than `have`, as digits and power of ten. -/
def shortestFrom (m : Nat) (e : Int) (k : Int) : Nat → Int → Nat × Int
  | 0, n => (((nearestAt m e (k - n)).getD m), k - n)
  | left + 1, n =>
    match nearestAt m e (k - n) with
    | some d => (d, k - n)
    | none => shortestFrom m e k left (n + 1)

/-- The shortest decimal `digits * 10 ^ power` that reads back as `m * 2 ^ e`, for `m > 0`. -/
def shortest (m : Nat) (e : Int) : Nat × Int := shortestFrom m e (magnitude m e) 16 1

end StubCatalog.Double
