import StubCatalog.Text.Range

/-! # Decimal digits

A script's ten digits are consecutive, so the value of a digit is its distance from the start of its
range, modulo ten. -/

namespace StubCatalog.Text

/-- The runs of decimal digits outside ASCII; each starts at a zero. -/
def digitRanges : Array (Nat × Nat) := rangesOf
  [1632,10,134,10,198,10,412,10,118,10,118,10,118,10,118,10,118,10,118,10,118,10,118,10,118,10,96,
   10,118,10,70,10,278,10,70,10,1862,10,38,10,300,10,128,10,166,10,6,10,182,10,86,10,134,10,6,10,
   35270,10,678,10,38,10,198,10,22,10,86,10,406,10,21270,10,1414,10,2182,10,812,10,128,10,60,10,144,
   10,278,10,342,10,118,10,374,10,102,10,102,10,422,10,102,10,758,10,246,10,70,10,19638,10,86,10,
   134,10,27764,50,2368,10,422,10,1622,10,4758,10]

def digitValue? (c : Char) : Option Nat :=
  let n := c.toNat
  if n < 128 then if 48 ≤ n && n ≤ 57 then some (n - 48) else none
  else (digitRanges.find? fun range => range.1 ≤ n && n ≤ range.2).map fun range =>
    (n - range.1) % 10

def isDigit (c : Char) : Bool := (digitValue? c).isSome

end StubCatalog.Text
