import StubCatalog.Query.Ancestry
import StubCatalog.Text.Basic

/-! # Members and declarations

Looking up a member of a class through its ancestors, and a declaration by its qualified name. -/

namespace StubCatalog

/-- A member of a class. -/
inductive MemberEntry where
  | method (entry : MethodEntry)
  | property (entry : PropertyEntry)
  | constant (entry : ConstantEntry)
  deriving Inhabited

/-- How the member is declared. -/
def MemberEntry.declaration : MemberEntry → Declaration
  | .method m => m.declaration
  | .property p => p.declaration
  | .constant c => c.declaration

/-- A member that was found, the class that has it, and the template parameters of that class. -/
structure Member where
  owner : String
  entry : MemberEntry
  bindings : Table TypeExpr := {}
  deriving Inhabited

namespace Member

/-- What the member is. -/
def kind (m : Member) : DeclarationKind :=
  match m.entry with
  | .method _ => .method
  | .property _ => .property
  | .constant c => c.declaration.kind

/-- How the member is declared. -/
def declaration (m : Member) : Declaration := m.entry.declaration

/-- The signatures of a method, seen from the class that was asked. -/
def signatures? (m : Member) : Option (List Signature) :=
  match m.entry with
  | .method method => some (method.signatures.map (Signature.instantiateOuter m.bindings))
  | _ => none

/-- The type of a property or constant, seen from the class that was asked. -/
def type? (m : Member) : Option TypeExpr :=
  match m.entry with
  | .method _ => none
  | .property p => some (TypeExpr.substitute m.bindings p.type)
  | .constant c => some (TypeExpr.substitute m.bindings c.type)

end Member

/-- What a member comes down to. -/
inductive ResolvedMember where
  | signatures (signatures : List Signature)
  | type (type : TypeExpr)
  deriving Inhabited

namespace Catalog

variable (catalog : Catalog)

/-- The member that a class has itself. -/
def ownMember? (ancestor : Ancestor) (name : String) : Option Member :=
  let entry := ancestor.entry
  let found (m : MemberEntry) : Member := ⟨entry.name, m, ancestor.bindings⟩
  match name.toList with
  | '$' :: rest => (entry.properties.get? (String.ofList rest)).map (found ∘ .property)
  | _ =>
    ((entry.methods.get? (Text.lower name)).map (found ∘ .method)).or
      ((entry.constants.get? name).map (found ∘ .constant))

/-- The first member of the name among the class and those above it. -/
def member? (className name : String) : Option Member :=
  (catalog.ancestry className).findSome? (ownMember? · name)

/-- The signatures or the type of a member. -/
def resolveMember? (className name : String) : Option ResolvedMember :=
  (catalog.member? className name).bind fun found =>
    if found.kind = .method then found.signatures?.map .signatures else found.type?.map .type

/-- The class and the member in a name. -/
def splitMember? (name : String) : Option (String × String) :=
  (Text.cutAt? [':', ':'] name.toList).map fun (owner, member) =>
    (String.ofList owner, String.ofList member)

/-- The function of this name. -/
def function? (name : String) : Option FunctionEntry := catalog.functions.get? (Name.symbolKey name)

/-- The global constant or class constant of this name. -/
def constant? (name : String) : Option ConstantEntry :=
  match splitMember? name with
  | some (owner, member) =>
    match catalog.member? owner member with
    | some ⟨_, .constant entry, _⟩ => some entry
    | _ => none
  | none => catalog.constants.get? (Name.constantKey name)

/-- The namespace of this name. -/
def namespace? (name : String) : Option Namespace :=
  catalog.namespaces.get?
    (Text.lower (String.ofList (Text.trimBy (· == '\\') name.toList)))

/-- The kind is the one that is asked for, if any. -/
def isWanted (kind : Option DeclarationKind) (found : DeclarationKind) : Bool :=
  kind.all (· = found)

/-- The class of this name and kind. -/
def wantedClass? (name : String) (kind : Option DeclarationKind) : Option ClassEntry :=
  if kind.all [.plainClass, .interface, .trait, .enumeration].contains then
    (catalog.class? name).filter fun entry => isWanted kind entry.declaration.kind
  else none

/-- The class, else the function, else the constant of a qualified name, of a certain kind if one is
given; with a double colon, a member of a class. -/
def lookup? (name : String) (kind : Option DeclarationKind := none) : Option Declaration :=
  match splitMember? name with
  | some (owner, member) =>
    ((catalog.member? owner member).filter fun found => isWanted kind found.kind).map
      (·.declaration)
  | none =>
    ((catalog.wantedClass? name kind).map (·.declaration)).or
      (((if isWanted kind .function then catalog.function? name else none).map (·.declaration)).or
        ((if isWanted kind .constant then catalog.constants.get? (Name.constantKey name)
          else none).map (·.declaration)))

end Catalog

end StubCatalog
