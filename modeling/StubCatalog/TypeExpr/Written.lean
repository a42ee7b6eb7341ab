import StubCatalog.Json.Printer
import StubCatalog.TypeExpr.Encoding
import StubCatalog.TypeExpr.Rebuild

/-! # Types that can be written

An integer with too many digits may be read but is never written, and neither is a type that holds
it. -/

namespace StubCatalog.TypeExpr

/-- The integers directly in the type can be written. -/
def isWritableNode : TypeExpr → Bool
  | .literal (.int n) => Numeral.isWritable n
  | .intRange low high => low.stored.isWritable && high.stored.isWritable
  | .shape _ fields .. => fields.all fun f => f.key.all (·.toJson.isWritable)
  | _ => true

/-- All integers in the type can be written. -/
def isWritable (t : TypeExpr) : Bool := t.nodes.all isWritableNode

/-- The text of the type, unless an integer has too many digits. -/
def written (t : TypeExpr) : Except Numeral.Error String :=
  if t.isWritable then .ok t.text else .error .unwritable

/-- The two types are stored as the same data, numbers that equal nothing included. -/
def isStoredLike (t u : TypeExpr) : Bool := t.toJson.compact == u.toJson.compact

end StubCatalog.TypeExpr
