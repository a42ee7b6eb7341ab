import StubCatalog.TypeExpr.Basic

/-! # Constant values

The values that a constant or a default can have, and the literal type that holds just one value. -/

namespace StubCatalog

/-- The value of a constant. -/
inductive Scalar where
  | null
  | bool (value : Bool)
  | int (value : Int)
  | float (value : Double)
  | str (value : String)
  deriving DecidableEq, Repr, Inhabited

namespace Scalar

/-- The type of the value alone. -/
def type : Scalar → TypeExpr
  | .null => .null
  | .bool true => .keyword "true"
  | .bool false => .keyword "false"
  | .int n => .literal (.int n)
  | .float d => .literal (.float d)
  | .str s => .literal (.str s)

/-- The value as data. -/
def toJson : Scalar → Json
  | .null => .null
  | .bool b => .bool b
  | .int n => .int n
  | .float d => .float d
  | .str s => .str s

/-- The value in data. -/
def ofJson? : Json → Option Scalar
  | .null => some .null
  | .bool b => some (.bool b)
  | .int n => some (.int n)
  | .float d => some (.float d)
  | .str s => some (.str s)
  | .arr _ => none
  | .obj _ => none

theorem ofJson?_toJson (v : Scalar) : ofJson? v.toJson = some v := by
  cases v <;> rfl

/-- The value as it is shown. -/
def shown (v : Scalar) : String := v.toJson.shown

end Scalar

end StubCatalog
