import StubCatalog.Query.Member
import StubCatalog.TypeExpr.Resolve

/-! # References to class constants

A reference such as `Foo::BAR_*` stands for the union of the constants whose names match. -/

namespace StubCatalog

/-- A pattern for names, as a list of characters and stars. -/
abbrev NamePattern := List (Option Char)

namespace NamePattern

/-- The pattern in a text: a star stands for anything. -/
def ofText (text : String) : NamePattern :=
  text.toList.map fun c => if c == '*' then none else some c

/-- The name matches the pattern: a star matches any run within a line, and a line feed at the end
of the name is not looked at. -/
def isMatch (pattern : NamePattern) (name : List Char) : Bool :=
  match pattern, name with
  | [], [] => true
  | [], ['\n'] => true
  | [], _ => false
  | some _ :: _, [] => false
  | some c :: pattern, d :: name => c == d && isMatch pattern name
  | none :: pattern, [] => isMatch pattern []
  | none :: pattern, d :: name =>
    isMatch pattern (d :: name) || (d != '\n' && isMatch (none :: pattern) name)
termination_by pattern.length + name.length

end NamePattern

namespace Catalog

variable (catalog : Catalog)

/-- The type that a constant adds to what a reference stands for. -/
def contribution (owner : String) (constant : ConstantEntry) : TypeExpr :=
  if constant.declaration.kind = .enumCase then .named owner
  else if constant.isValueKnown then constant.value.type
  else constant.type

/-- Adds the types of the constants of a class that match. -/
def addMatches (pattern : NamePattern) (found : Table TypeExpr) (ancestor : Ancestor) :
    Table TypeExpr :=
  ancestor.entry.constants.pairs.foldl (fun found (name, constant) =>
    if pattern.isMatch name.toList then
      found.insertNew name (contribution ancestor.entry.name constant)
    else found) found

/-- The type that a reference to the constants of a class stands for; none if no constant
matches. -/
def expand? (owner member : String) : Option TypeExpr :=
  if Keyword.relatives.contains (Text.lower owner) then none
  else
    let found := (catalog.ancestry owner).foldl (addMatches (NamePattern.ofText member)) {}
    if found.pairs.isEmpty then none else some (.unionOf found.values)

/-- What a catalog knows about classes. -/
def hierarchy : TypeExpr.Hierarchy where
  isSubclass := catalog.isSubclass
  expand := catalog.expand?

end Catalog

end StubCatalog
