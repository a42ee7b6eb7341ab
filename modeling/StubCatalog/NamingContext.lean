import StubCatalog.Name
import StubCatalog.Table
import StubCatalog.Text.Basic

/-! # Names at a place in a file

What a relative name means at a declaration. A class name is looked up among the imports by its
first part; a function or constant without a namespace falls back to the global one. -/

namespace StubCatalog

/-- What an import is for. -/
inductive ImportKind where
  | classLike
  | function
  | constant
  deriving DecidableEq, Repr, Inhabited

/-- The names that a part of a file can use. -/
structure NamingContext where
  file : String := "<memory>"
  space : String := ""
  classes : Table String := {}
  functions : Table String := {}
  constants : Table String := {}
  deriving Inhabited

namespace NamingContext

/-- Adds an import. Without an alias, or with an empty one, the last part of the name is used. -/
def addImport (ctx : NamingContext) (name : String) (localName : Option String)
    (kind : ImportKind) : NamingContext :=
  let target := Name.bare name
  let chosen := match localName with
    | some a => if a == "" then (Name.split target).2 else a
    | none => (Name.split target).2
  match kind with
  | .classLike => { ctx with classes := ctx.classes.insert (Text.lower chosen) target }
  | .function => { ctx with functions := ctx.functions.insert (Text.lower chosen) target }
  | .constant => { ctx with constants := ctx.constants.insert chosen target }

/-- The qualified name of what is declared here. -/
def qualify (ctx : NamingContext) (name : String) : String := Name.join ctx.space name

/-- A name that starts with a backslash, without it. -/
def complete? (name : String) : Option String :=
  match name.toList with
  | '\\' :: rest => some (String.ofList rest)
  | _ => none

/-- The class that a name means. -/
def resolveClass (ctx : NamingContext) (written : String) : String :=
  let name := Text.trim written
  match complete? name with
  | some full => full
  | none =>
    let (head, more, rest) := Name.splitFirst name
    if Text.lower head == "namespace" && more then Name.join ctx.space rest
    else match ctx.classes.get? (Text.lower head) with
      | some target => if more then target ++ "\\" ++ rest else target
      | none => Name.join ctx.space name

/-- The candidates for a function or constant name: its import, or the name here and then the
global one. -/
def candidates (ctx : NamingContext) (imports : Table String) (key : String → String)
    (written : String) : List String :=
  let name := Text.trim written
  match complete? name with
  | some full => [full]
  | none =>
    if name.toList.contains '\\' then [ctx.resolveClass name]
    else match imports.get? (key name) with
      | some target => [target]
      | none => if ctx.space == "" then [name] else [Name.join ctx.space name, name]

/-- The functions that a name can mean, in order. -/
def resolveFunction (ctx : NamingContext) (written : String) : List String :=
  ctx.candidates ctx.functions Text.lower written

/-- The constants that a name can mean, in order. -/
def resolveConstant (ctx : NamingContext) (written : String) : List String :=
  ctx.candidates ctx.constants id written

end NamingContext

end StubCatalog
