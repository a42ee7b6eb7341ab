import StubCatalog.Json.Basic
import StubCatalog.SyntaxTree

/-! # Syntax trees from data

A node is an array of its kind, the start and the end of its range of bytes, its role or null, its
marks (`n` for a rule of the grammar, `m` for a node that was put in), and its children. -/

namespace StubCatalog.SyntaxNode

/-- The field that a node stands in. -/
def roleOfJson? : Json → Option (Option String)
  | .null => some none
  | .str role => some (some role)
  | _ => none

mutual

/-- The node in data. -/
def ofJson? : Json → Option SyntaxNode
  | .arr [.str kind, .int start, .int stop, role, .str marks, .arr children] => do
    let field ← roleOfJson? role
    let children ← ofItems? children
    let missing := marks.toList.contains 'm'
    return {
      kind, start := start.toNat, stop := stop.toNat, field
      named := marks.toList.contains 'n'
      missing
      hasError := kind == "ERROR" || missing || children.any (·.hasError)
      children }
  | _ => none

/-- The nodes in a list of data. -/
def ofItems? : List Json → Option (List SyntaxNode)
  | [] => some []
  | item :: items => do return (← ofJson? item) :: (← ofItems? items)

end

end StubCatalog.SyntaxNode
