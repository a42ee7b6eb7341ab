import StubCatalog.TypeExpr.Basic

/-! # Alternatives and combinations in canonical form

Nested members of the same sort are taken apart, repeated ones are dropped, and null is written as a
nullable type. -/

namespace StubCatalog.TypeExpr

/-- The types that are the same as none of `seen` and as none before them. -/
def distinctFrom (seen : List TypeExpr) : List TypeExpr → List TypeExpr
  | [] => []
  | t :: ts =>
    if seen.any (·.same t) then distinctFrom seen ts else t :: distinctFrom (t :: seen) ts

/-- The types without repetitions, in the order of their first occurrence. -/
def distinct (ts : List TypeExpr) : List TypeExpr := distinctFrom [] ts

/-- The members of a union; another type alone. -/
def unionParts : TypeExpr → List TypeExpr
  | .union ts => ts
  | t => [t]

/-- The members of an intersection; another type alone. -/
def intersectionParts : TypeExpr → List TypeExpr
  | .intersection ts => ts
  | t => [t]

/-- The type with null, which is added only once. -/
def mkNullable : TypeExpr → TypeExpr
  | .nullable t => mkNullable t
  | t => .nullable t

/-- The union of the members without repetitions. -/
def mkUnion (ts : List TypeExpr) : TypeExpr := .union (distinct (ts.flatMap unionParts))

/-- An intersection of the given members; intersections among them are taken apart. -/
def mkIntersection (ts : List TypeExpr) : TypeExpr :=
  .intersection (distinct (ts.flatMap intersectionParts))

/-- The type is null. -/
def isNull : TypeExpr → Bool
  | .keyword name => name.text == "null"
  | _ => false

/-- The type is empty. -/
def isNever : TypeExpr → Bool
  | .keyword name => name.text == "never"
  | _ => false

/-- The type has any value. -/
def isMixed : TypeExpr → Bool
  | .keyword name => name.text == "mixed"
  | _ => false

/-- The type was not understood. -/
def isUnknown : TypeExpr → Bool
  | .unknown _ => true
  | _ => false

/-- Null and the type in a nullable type; another type alone. -/
def nullParts : TypeExpr → List TypeExpr
  | .nullable t => [null, t]
  | t => [t]

/-- The alternatives of a type, with null as one of them. -/
def alternatives (t : TypeExpr) : List TypeExpr :=
  (nullParts t).flatMap fun part => (unionParts part).flatMap nullParts

/-- The members of a union without the empty type, which stays only if it is alone. -/
def dropNever (ts : List TypeExpr) : List TypeExpr :=
  if ts.length > 1 then ts.filter (!·.isNever) else ts

/-- The canonical union of the given types: null makes it nullable, the empty type is dropped when
there is another member, and a single member stands for itself. -/
def unionOf (ts : List TypeExpr) : TypeExpr :=
  let parts := ts.flatMap alternatives
  let orNull := parts.any isNull
  match dropNever (distinct (parts.filter (!·.isNull))) with
  | [] => if orNull then null else never
  | [t] => if orNull then mkNullable t else t
  | members => if orNull then mkNullable (mkUnion members) else mkUnion members

/-- The types combined, in canonical form. -/
def intersectionOf (ts : List TypeExpr) : TypeExpr :=
  match distinct (ts.flatMap intersectionParts) with
  | [] => mixed
  | [t] => t
  | members => mkIntersection members

/-- The type or null, in canonical form. -/
def nullableOf (t : TypeExpr) : TypeExpr := unionOf [t, null]

/-- Null belongs to the type. -/
def isNullable : TypeExpr → Bool
  | .nullable _ => true
  | t => t.isNull || t.isMixed

/-- The members of a union, null spelled out for a nullable type. -/
def membersOf : TypeExpr → List TypeExpr
  | .nullable t => membersOf t ++ [null]
  | .union ts => ts
  | t => [t]

end StubCatalog.TypeExpr
