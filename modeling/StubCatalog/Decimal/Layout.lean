import StubCatalog.Decimal.Shortest

/-! # Decimal text of a double

Numbers from `0.0001` up to sixteen digits before the point are written positionally, the others
with an exponent of at least two digits. -/

namespace StubCatalog.Double

structure Layout where
  /-- The least and the greatest place of the leading digit that is written positionally. -/
  positional : Int × Int
  exponentWidth : Nat

/-- Positional from `1e-4` to below `1e16`; exponents have two digits. -/
def layout : Layout := ⟨(-4, 15), 2⟩

/-- An exponent with a sign and a least number of digits. -/
def exponentText (width : Nat) (e : Int) : String :=
  let digits := toString e.natAbs
  let padding := String.ofList (List.replicate (width - digits.length) '0')
  (if e < 0 then "-" else "+") ++ padding ++ digits

/-- The digits `ds`, of which the first stands at place `lead`, written positionally. -/
def positionalText (ds : List Char) (lead : Int) : List Char :=
  if lead < 0 then '0' :: '.' :: List.replicate (-lead - 1).toNat '0' ++ ds
  else
    let whole := lead.toNat + 1
    let front := ds.take whole ++ List.replicate (whole - ds.length) '0'
    let back := ds.drop whole
    front ++ '.' :: (if back.isEmpty then ['0'] else back)

/-- The digits without zeros at the end. -/
def significantDigits (d : Nat) : List Char :=
  ((toString d).toList.reverse.dropWhile (· == '0')).reverse

/-- A positive number as it is written. -/
def positiveText (m : Nat) (e : Int) : String :=
  let (d, power) := shortest m e
  let lead : Int := power + (toString d).length - 1
  let ds := significantDigits d
  if layout.positional.1 ≤ lead && lead ≤ layout.positional.2 then
    String.ofList (positionalText ds lead)
  else
    let mantissa := match ds with
      | [] => []
      | [c] => [c]
      | c :: rest => c :: '.' :: rest
    String.ofList mantissa ++ "e" ++ exponentText layout.exponentWidth lead

/-- A number as it is written. -/
def text : Double → String
  | .nan => "nan"
  | .infinite negative => if negative then "-inf" else "inf"
  | .finite negative m e =>
    (if negative then "-" else "") ++ (if m == 0 then "0.0" else positiveText m e)

end StubCatalog.Double
