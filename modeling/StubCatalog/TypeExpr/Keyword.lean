import StubCatalog.Text.Lowercase

/-! # Keywords of type expressions

The words that name a type of their own, their other spellings, and those that take type arguments,
fields or parameters. -/

namespace StubCatalog.Keyword

/-- The names of the built-in types, in normal spelling. -/
def builtins : List String :=
  ["mixed", "null", "void", "never", "bool", "true", "false", "int", "float", "string", "array",
    "list", "iterable", "object", "callable", "resource", "scalar", "numeric", "array-key",
    "non-empty-array", "non-empty-list", "non-empty-string", "non-falsy-string", "numeric-string",
    "lowercase-string", "non-empty-lowercase-string", "literal-string", "literal-int",
    "class-string", "interface-string", "enum-string", "trait-string", "positive-int",
    "negative-int", "non-positive-int", "non-negative-int", "open-resource", "closed-resource",
    "pure-callable", "key-of", "value-of", "self", "static", "parent", "$this"]

/-- Other spellings of built-in types. -/
def aliases : List (String × String) :=
  [("no-return", "never"), ("never-return", "never"), ("never-returns", "never"),
    ("nothing", "never"), ("truthy-string", "non-falsy-string"), ("boolean", "bool"),
    ("integer", "int"), ("double", "float"), ("real", "float"), ("noreturn", "never")]

/-- The built-in types that take arguments. -/
def generics : List String :=
  ["array", "list", "non-empty-array", "non-empty-list", "iterable", "class-string",
    "interface-string", "enum-string", "trait-string", "key-of", "value-of"]

/-- The built-in types that take fields. -/
def shapes : List String := ["array", "list", "non-empty-array", "non-empty-list", "object"]

/-- The words that take parameters, in lower case and as they are printed. -/
def callables : List (String × String) :=
  [("callable", "callable"), ("pure-callable", "pure-callable"), ("closure", "Closure"),
    ("pure-closure", "pure-Closure")]

/-- The words for classes seen from inside a class. -/
def relatives : List String := ["self", "static", "parent"]

/-- The word names a built-in type that takes type arguments, in any case. -/
def isGeneric (name : String) : Bool := generics.contains (Text.lower name)

/-- The word stands for a built-in type or a callable, so a class of that name has to be marked. -/
def isReserved (name : String) : Bool :=
  let lowered := Text.lower name
  builtins.contains lowered || (aliases.lookup lowered).isSome || (callables.lookup lowered).isSome

end StubCatalog.Keyword
