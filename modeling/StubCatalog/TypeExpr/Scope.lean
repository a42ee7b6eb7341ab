import StubCatalog.NamingContext
import StubCatalog.TypeExpr.Basic

/-! # Scope of a type expression

What the names inside a type mean: the naming context of its file and the template parameters
visible there. -/

namespace StubCatalog

/-- The names that a type expression may use: the file's imports and template parameters with their
bounds. -/
structure Scope where
  context : Option NamingContext := none
  templates : Table (Option TypeExpr) := {}
  deriving Inhabited

namespace Scope

/-- The qualified name of a class. -/
def resolveClass (scope : Scope) (name : String) : String :=
  match scope.context with
  | none => Name.bare name
  | some ctx => ctx.resolveClass name

/-- Adds template parameters; a later one of the same name wins. -/
def withTemplates (scope : Scope) (templates : Table (Option TypeExpr)) : Scope :=
  { scope with templates := scope.templates.union templates }

end Scope

end StubCatalog
