import StubCatalog.Location

/-! # Declarations

What every declared symbol has: its name, what it is, and its modifiers. -/

namespace StubCatalog

/-- What is declared. -/
inductive DeclarationKind where
  | function
  | method
  | plainClass
  | interface
  | trait
  | enumeration
  | constant
  | classConstant
  | enumCase
  | property
  deriving DecidableEq, Repr, Inhabited

namespace DeclarationKind

/-- All kinds. -/
def all : List DeclarationKind :=
  [.function, .method, .plainClass, .interface, .trait, .enumeration, .constant, .classConstant,
    .enumCase, .property]

/-- The name of a kind in data. -/
def label : DeclarationKind → String
  | .function => "function"
  | .method => "method"
  | .plainClass => "class"
  | .interface => "interface"
  | .trait => "trait"
  | .enumeration => "enum"
  | .constant => "constant"
  | .classConstant => "class_constant"
  | .enumCase => "enum_case"
  | .property => "property"

/-- The kind of this name. -/
def ofLabel? (name : String) : Option DeclarationKind := all.find? (·.label == name)

theorem ofLabel?_label (k : DeclarationKind) : ofLabel? k.label = some k := by
  cases k <;> decide

end DeclarationKind

/-- The kinds of classes. -/
inductive ClassKind where
  | plainClass
  | interface
  | trait
  | enumeration
  deriving DecidableEq, Repr, Inhabited

namespace ClassKind

/-- The kind of declaration. -/
def declarationKind : ClassKind → DeclarationKind
  | .plainClass => .plainClass
  | .interface => .interface
  | .trait => .trait
  | .enumeration => .enumeration

/-- All kinds. -/
def all : List ClassKind := [.plainClass, .interface, .trait, .enumeration]

/-- The name of a kind in data. -/
def label (k : ClassKind) : String := k.declarationKind.label

/-- The kind of this name. -/
def ofLabel? (name : String) : Option ClassKind := all.find? (·.label == name)

theorem ofLabel?_label (k : ClassKind) : ofLabel? k.label = some k := by
  cases k <;> decide

end ClassKind

/-- Who may use a member. -/
inductive Visibility where
  | isPublic
  | isProtected
  | isPrivate
  deriving DecidableEq, Repr, Inhabited

namespace Visibility

/-- All visibilities. -/
def all : List Visibility := [.isPublic, .isProtected, .isPrivate]

/-- The word for a visibility. -/
def label : Visibility → String
  | .isPublic => "public"
  | .isProtected => "protected"
  | .isPrivate => "private"

/-- The visibility of this name. -/
def ofLabel? (name : String) : Option Visibility := all.find? (·.label == name)

theorem ofLabel?_label (v : Visibility) : ofLabel? v.label = some v := by
  cases v <;> decide

/-- The visibility by the modifiers of a declaration. -/
def ofModifiers (modifiers : List String) : Visibility :=
  if modifiers.contains "private" then .isPrivate
  else if modifiers.contains "protected" then .isProtected
  else .isPublic

end Visibility

/-- A declared symbol. -/
structure Declaration where
  name : String
  qualifiedName : String
  kind : DeclarationKind
  visibility : Visibility := .isPublic
  isStatic : Bool := false
  isAbstract : Bool := false
  isFinal : Bool := false
  isReadonly : Bool := false
  isDeprecated : Bool := false
  location : Option Location := none
  deriving DecidableEq, Repr, Inhabited

end StubCatalog
