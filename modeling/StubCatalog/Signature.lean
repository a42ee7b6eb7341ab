import StubCatalog.Docblock.Basic
import StubCatalog.Location
import StubCatalog.Scalar
import StubCatalog.TypeExpr.Rebuild

/-! # Signatures

The parameters of a callable, the type of its result and what is known about its behaviour. -/

namespace StubCatalog

/-- A template parameter with its bound. -/
structure TemplateParameter where
  name : String
  bound : Option TypeExpr := none
  variance : Variance := .invariant
  deriving Inhabited

/-- A parameter. Its type is the documented one, or else the declared one; `outType` is the type
that a parameter taken by reference has after the call. -/
structure Parameter where
  name : String
  type : TypeExpr := .mixed
  nativeType : Option TypeExpr := none
  outType : Option TypeExpr := none
  hasDefault : Bool := false
  default : Scalar := .null
  defaultExpression : Option String := none
  isVariadic : Bool := false
  isByReference : Bool := false
  isPromoted : Bool := false
  deriving Inhabited

namespace Parameter

/-- The parameter can be left out. -/
def isOptional (p : Parameter) : Bool := p.hasDefault || p.isVariadic

/-- The parameter has another type after the call. -/
def isOut (p : Parameter) : Bool := p.isByReference && p.outType.isSome

end Parameter

/-- What is known about a parameter after the call. -/
structure Assertion where
  kind : AssertionKind
  parameter : String
  type : TypeExpr
  negated : Bool := false
  deriving Inhabited

/-- What a function takes and returns. -/
structure Signature where
  parameters : List Parameter := []
  returnType : TypeExpr := .mixed
  nativeReturnType : Option TypeExpr := none
  templates : List TemplateParameter := []
  throws : List TypeExpr := []
  assertions : List Assertion := []
  returnsByReference : Bool := false
  isPure : Bool := false
  isMutationFree : Bool := false
  isDeprecated : Bool := false
  noNamedArguments : Bool := false
  ignoreNullableReturn : Bool := false
  ignoreFalsableReturn : Bool := false
  location : Option Location := none
  deriving Inhabited

/-- The bindings of template parameters to type arguments, in order; arguments beyond the parameters
are ignored. -/
def bindTemplates (templates : List TemplateParameter) (args : List TypeExpr) : Table TypeExpr :=
  Table.ofList ((templates.map TemplateParameter.name).zip args)

/-- The arguments of template parameters, by name. -/
def bindTemplatesByName (templates : List TemplateParameter) (args : Table TypeExpr) :
    Table TypeExpr :=
  Table.ofList (templates.filterMap fun t => (args.get? t.name).map fun arg => (t.name, arg))

namespace Signature

/-- The parameter of this name. -/
def parameter? (s : Signature) (name : String) : Option Parameter :=
  s.parameters.find? (·.name == String.ofList (name.toList.dropWhile (· == '$')))

/-- How many parameters cannot be left out. -/
def requiredCount (s : Signature) : Nat := (s.parameters.filter (!·.isOptional)).length

/-- Any number of arguments can be given. -/
def isVariadic (s : Signature) : Bool := s.parameters.any (·.isVariadic)

/-- The signature takes so many arguments. -/
def acceptsArity (s : Signature) (count : Int) : Bool :=
  (s.requiredCount : Int) ≤ count && (s.isVariadic || count ≤ s.parameters.length)

/-- The template parameter of this name. -/
def template? (s : Signature) (name : String) : Option TemplateParameter :=
  s.templates.find? (·.name == name)

/-- Replaces template parameters in every type of the signature except for the declared type of the
result and the bounds. -/
def substitute (bindings : Table TypeExpr) (s : Signature) : Signature :=
  let replace := TypeExpr.substitute bindings
  { s with
    parameters := s.parameters.map fun p =>
      { p with
        type := replace p.type
        nativeType := p.nativeType.map replace
        outType := p.outType.map replace }
    returnType := replace s.returnType
    throws := s.throws.map replace
    assertions := s.assertions.map fun a => { a with type := replace a.type } }

/-- Binds template parameters of the signature itself, which are then no longer open. -/
def instantiateOwn (bindings : Table TypeExpr) (s : Signature) : Signature :=
  if bindings.pairs.isEmpty then s
  else
    { s.substitute bindings with
      templates := s.templates.filter fun t => !bindings.contains t.name }

/-- Binds template parameters of the enclosing class; those that the signature declares again are
hidden by it. -/
def instantiateOuter (bindings : Table TypeExpr) (s : Signature) : Signature :=
  let visible := bindings.filter fun name _ => (s.template? name).isNone
  if visible.pairs.isEmpty then s else s.substitute visible

end Signature

end StubCatalog
