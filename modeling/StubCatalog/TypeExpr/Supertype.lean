import StubCatalog.TypeExpr.Basic

/-! # The order of built-in types

Which built-in type contains which, and from which families of values each draws. -/

namespace StubCatalog.Keyword

/-- The built-in types directly above each built-in type. -/
def parents : List (String × List String) :=
  [("positive-int", ["non-negative-int"]), ("negative-int", ["non-positive-int"]),
    ("non-negative-int", ["int"]), ("non-positive-int", ["int"]), ("literal-int", ["int"]),
    ("int", ["numeric", "array-key"]), ("float", ["numeric"]), ("numeric", ["scalar"]),
    ("array-key", ["scalar"]), ("string", ["scalar", "array-key"]),
    ("non-empty-string", ["string"]), ("non-falsy-string", ["non-empty-string"]),
    ("numeric-string", ["non-empty-string"]), ("lowercase-string", ["string"]),
    ("non-empty-lowercase-string", ["lowercase-string", "non-empty-string"]),
    ("literal-string", ["string"]), ("class-string", ["non-falsy-string"]),
    ("interface-string", ["class-string"]), ("enum-string", ["class-string"]),
    ("trait-string", ["class-string"]), ("true", ["bool"]), ("false", ["bool"]),
    ("bool", ["scalar"]), ("scalar", ["mixed"]), ("non-empty-list", ["list", "non-empty-array"]),
    ("list", ["array"]), ("non-empty-array", ["array"]), ("array", ["iterable"]),
    ("iterable", ["mixed"]), ("object", ["mixed"]), ("pure-callable", ["callable"]),
    ("callable", ["mixed"]), ("open-resource", ["resource"]), ("closed-resource", ["resource"]),
    ("resource", ["mixed"]), ("null", ["mixed"]), ("void", ["null"]), ("self", ["object"]),
    ("static", ["self"]), ("parent", ["object"]), ("$this", ["static"])]

/-- Adds a name unless it is listed. -/
def addName (names : List String) (name : String) : List String :=
  if names.contains name then names else names ++ [name]

/-- Adds the types directly above the listed ones. -/
def climb (names : List String) : List String :=
  names.foldl (fun found name => ((parents.lookup name).getD []).foldl addName found) names

/-- No built-in type is further below another. -/
def height : Nat := 6

/-- The type and all built-in types above it. -/
def ancestors (name : String) : List String := Nat.repeat climb height [name]

/-- The families of values that a program meets. -/
inductive Family where
  | int | float | string | bool | null | array | object | resource
  deriving DecidableEq, Repr

/-- All families of values. -/
def families : List Family := [.int, .float, .string, .bool, .null, .array, .object, .resource]

/-- The families of the built-in types at which the order is read off. -/
def drawn : List (String × List Family) :=
  [("int", [.int]), ("float", [.float]), ("string", [.string]), ("bool", [.bool]),
    ("null", [.null]), ("array", [.array]), ("object", [.object]), ("resource", [.resource]),
    ("numeric", [.int, .float, .string]), ("scalar", [.int, .float, .string, .bool]),
    ("array-key", [.int, .string]), ("iterable", [.array, .object]),
    ("callable", [.string, .array, .object]), ("mixed", families), ("never", [])]

/-- The families that a built-in type draws from: those of the nearest listed type above it. -/
def domain (name : String) : List Family :=
  ((ancestors name).findSome? fun above => drawn.lookup above).getD families

/-- The built-in types of integers with their bounds. -/
def ranges : List (String × (Bound × Bound)) :=
  let range (low high : Option Int) : Bound × Bound := (.ofInt? low, .ofInt? high)
  [("int", range none none), ("positive-int", range (some 1) none),
    ("negative-int", range none (some (-1))), ("non-negative-int", range (some 0) none),
    ("non-positive-int", range none (some 0))]

end StubCatalog.Keyword
