import StubCatalog.Declaration
import StubCatalog.Diagnostic
import StubCatalog.Name
import StubCatalog.Signature

/-! # The catalog

Classes and functions are found by their qualified name without regard to case, constants with
regard to the case of their short name. -/

namespace StubCatalog

/-- A function of a catalog. -/
structure FunctionEntry where
  declaration : Declaration
  signatures : List Signature := []
  deriving Inhabited

/-- A method. `declaredIn` is the class that spells it out, which differs from the owner if the
method comes from a trait. -/
structure MethodEntry where
  declaration : Declaration
  owner : String
  declaredIn : String
  signatures : List Signature := []
  deriving Inhabited

/-- A property of a class. -/
structure PropertyEntry where
  declaration : Declaration
  owner : String
  declaredIn : String
  type : TypeExpr := .mixed
  nativeType : Option TypeExpr := none
  hasDefault : Bool := false
  default : Scalar := .null
  deriving Inhabited

/-- A constant, global or of a class. -/
structure ConstantEntry where
  declaration : Declaration
  owner : Option String := none
  type : TypeExpr := .mixed
  value : Scalar := .null
  isValueKnown : Bool := false
  expression : Option String := none
  deriving Inhabited

/-- A class with its members. -/
structure ClassEntry where
  declaration : Declaration
  kind : ClassKind
  parent : Option String := none
  interfaces : List String := []
  traits : List String := []
  templates : List TemplateParameter := []
  ancestorArguments : Table (List TypeExpr) := {}
  methods : Table MethodEntry := {}
  properties : Table PropertyEntry := {}
  constants : Table ConstantEntry := {}
  cases : List String := []
  backingType : Option TypeExpr := none
  deriving Inhabited

namespace ClassEntry

/-- The qualified name. -/
def name (c : ClassEntry) : String := c.declaration.qualifiedName

/-- What the class is found by. -/
def key (c : ClassEntry) : String := Name.symbolKey c.name

/-- The parent; an empty name is none. -/
def parentName? (c : ClassEntry) : Option String := c.parent.filter (· != "")

/-- The parent and the interfaces. -/
def supertypes (c : ClassEntry) : List String := c.parentName?.toList ++ c.interfaces

/-- The method of this name. -/
def method? (c : ClassEntry) (name : String) : Option MethodEntry :=
  c.methods.get? (Text.lower name)

end ClassEntry

/-- What is declared in a namespace. -/
structure Namespace where
  name : String
  classes : Table Declaration := {}
  functions : Table Declaration := {}
  constants : Table Declaration := {}
  deriving Inhabited

namespace Namespace

/-- The declaration of a short name: a class, else a function, else a constant. -/
def get? (n : Namespace) (name : String) : Option Declaration :=
  let key := Text.lower name
  (n.classes.get? key).or ((n.functions.get? key).or (n.constants.get? name))

end Namespace

/-- Everything that is declared, and the diagnostics. -/
structure Catalog where
  classes : Table ClassEntry := {}
  functions : Table FunctionEntry := {}
  constants : Table ConstantEntry := {}
  namespaces : Table Namespace := {}
  diagnostics : List Diagnostic := []
  deriving Inhabited

end StubCatalog
