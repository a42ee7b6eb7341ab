import StubCatalog.Declaration
import StubCatalog.NamingContext

/-! # Contents of a stub file

The declarations of one file as they are written, with types and values as text. -/

namespace StubCatalog.Stub

/-- A parameter as it is declared. -/
structure Parameter where
  name : String
  typeText : Option String := none
  defaultText : Option String := none
  variadic : Bool := false
  byReference : Bool := false
  promoted : Bool := false
  deriving DecidableEq, Repr, Inhabited

/-- A function or method as it is declared. -/
structure Function where
  name : String
  context : NamingContext
  location : Location
  parameters : List Parameter := []
  resultText : Option String := none
  docblock : Option String := none
  modifiers : List String := []
  returnsByReference : Bool := false
  deriving Inhabited

/-- A constant as it is declared. -/
structure Constant where
  name : String
  context : NamingContext
  location : Location
  valueText : Option String := none
  typeText : Option String := none
  docblock : Option String := none
  modifiers : List String := []
  deriving Inhabited

/-- A property as it is declared. -/
structure Property where
  name : String
  location : Location
  typeText : Option String := none
  defaultText : Option String := none
  docblock : Option String := none
  modifiers : List String := []
  deriving DecidableEq, Repr, Inhabited

/-- A case of an enumeration. -/
structure EnumCase where
  name : String
  location : Location
  valueText : Option String := none
  docblock : Option String := none
  deriving DecidableEq, Repr, Inhabited

/-- Traits that a class uses. -/
structure TraitUse where
  names : List String
  docblock : Option String := none
  deriving DecidableEq, Repr, Inhabited

/-- A class, interface, trait or enumeration as it is declared. -/
structure ClassLike where
  kind : ClassKind
  name : String
  context : NamingContext
  location : Location
  docblock : Option String := none
  modifiers : List String := []
  extended : List String := []
  implemented : List String := []
  backingText : Option String := none
  methods : List Function := []
  properties : List Property := []
  constants : List Constant := []
  cases : List EnumCase := []
  traitUses : List TraitUse := []
  deriving Inhabited

/-- A syntax error. -/
structure SyntaxProblem where
  line : Int
  column : Int
  message : String
  deriving DecidableEq, Repr, Inhabited

/-- What a file declares. -/
structure File where
  path : String
  functions : List Function := []
  classes : List ClassLike := []
  constants : List Constant := []
  problems : List SyntaxProblem := []
  deriving Inhabited

/-- The declarations of two parts of a file. -/
def File.append (a b : File) : File where
  path := a.path
  functions := a.functions ++ b.functions
  classes := a.classes ++ b.classes
  constants := a.constants ++ b.constants
  problems := a.problems ++ b.problems

/-- How much a file declares. -/
def File.declarationCount (file : File) : Nat :=
  file.functions.length + file.classes.length + file.constants.length

end StubCatalog.Stub
