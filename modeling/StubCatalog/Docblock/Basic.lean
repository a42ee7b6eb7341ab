import StubCatalog.Table

/-! # Contents of a docblock

What the comment in front of a declaration says, tag by tag. Types are kept as text. -/

namespace StubCatalog

/-- The tool that a tag is addressed to. -/
inductive TagSource where
  | plain
  | phpstan
  | psalm
  deriving DecidableEq, Repr, Inhabited

/-- Tags of a higher rank take precedence. -/
def TagSource.rank : TagSource → Nat
  | .plain => 0
  | .phpstan => 1
  | .psalm => 2

/-- How a template parameter varies. -/
inductive Variance where
  | invariant
  | covariant
  | contravariant
  deriving DecidableEq, Repr, Inhabited

/-- The word for a variance. -/
def Variance.label : Variance → String
  | .invariant => "invariant"
  | .covariant => "covariant"
  | .contravariant => "contravariant"

/-- When an assertion holds. -/
inductive AssertionKind where
  | always
  | ifTrue
  | ifFalse
  deriving DecidableEq, Repr, Inhabited

/-- The tag of an assertion. -/
def AssertionKind.label : AssertionKind → String
  | .always => "assert"
  | .ifTrue => "assert-if-true"
  | .ifFalse => "assert-if-false"

/-- A tag with a type. -/
structure TypedTag where
  typeText : String
  name : Option String := none
  description : String := ""
  source : TagSource := .plain
  variadic : Bool := false
  byReference : Bool := false
  deriving DecidableEq, Repr, Inhabited

/-- A tag that declares a template parameter. -/
structure TemplateTag where
  name : String
  boundText : Option String := none
  variance : Variance := .invariant
  source : TagSource := .plain
  deriving DecidableEq, Repr, Inhabited

/-- A tag about a parameter after the call. -/
structure AssertionTag where
  kind : AssertionKind
  parameter : String
  typeText : String
  negated : Bool := false
  deriving DecidableEq, Repr, Inhabited

/-- A tag as it is written. -/
structure PlainTag where
  name : String
  body : String := ""
  deriving DecidableEq, Repr, Inhabited

/-- What a comment says. -/
structure Docblock where
  summary : String := ""
  description : String := ""
  params : Table TypedTag := {}
  paramOuts : Table TypedTag := {}
  result : Option TypedTag := none
  vars : List TypedTag := []
  throws : List TypedTag := []
  templates : List TemplateTag := []
  extended : List TypedTag := []
  implemented : List TypedTag := []
  used : List TypedTag := []
  assertions : List AssertionTag := []
  isPure : Bool := false
  isMutationFree : Bool := false
  isDeprecated : Bool := false
  deprecationMessage : Option String := none
  isReadonly : Bool := false
  isInternal : Bool := false
  isFinal : Bool := false
  noNamedArguments : Bool := false
  ignoreNullableReturn : Bool := false
  ignoreFalsableReturn : Bool := false
  inheritsDoc : Bool := false
  since : Option String := none
  others : List PlainTag := []
  warnings : List String := []
  deriving Inhabited

namespace Docblock

/-- The type of the first variable tag without a name, starting from `fallback`, unless a tag with
the given name comes first. -/
def varTypeFrom (name : Option String) (fallback : Option String) : List TypedTag → Option String
  | [] => fallback
  | tag :: tags =>
    if name.isSome && tag.name == name then some tag.typeText
    else varTypeFrom name
      (if tag.name.isNone && fallback.isNone then some tag.typeText else fallback) tags

/-- The type of the variable tag with the given name, or else of the one without a name. -/
def varType (block : Docblock) (name : Option String) : Option String :=
  varTypeFrom name none block.vars

end Docblock

end StubCatalog
