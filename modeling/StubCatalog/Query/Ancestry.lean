import StubCatalog.Catalog.Basic

/-! # The ancestors of a class

Members are looked for in the class, in its parents one after the other, and then in the interfaces
of all of these, nearer ones first, every class at most once. On the way template parameters are
bound to type arguments. -/

namespace StubCatalog

/-- A class above another, with what its template parameters are bound to. -/
structure Ancestor where
  entry : ClassEntry
  bindings : Table TypeExpr := {}
  deriving Inhabited

namespace Catalog

variable (catalog : Catalog)

/-- The class of this name. -/
def class? (name : String) : Option ClassEntry := catalog.classes.get? (Name.symbolKey name)

/-- A class above another, with the arguments that are given for it. -/
def bindAncestor (child : Ancestor) (entry : ClassEntry) : Ancestor :=
  let args := (child.entry.ancestorArguments.get? entry.key).getD []
  ⟨entry, bindTemplates entry.templates (args.map (TypeExpr.substitute child.bindings))⟩

/-- The parent of a class. -/
def parentOf? (child : Ancestor) : Option Ancestor :=
  (child.entry.parentName?.bind catalog.class?).map (bindAncestor child)

/-- A class and its parents, up to the first one that was met before. -/
def parentChain : Nat → List String → Ancestor → List Ancestor
  | 0, _, _ => []
  | depth + 1, met, start =>
    if met.contains start.entry.key then []
    else start :: match catalog.parentOf? start with
      | some parent => parentChain depth (start.entry.key :: met) parent
      | none => []

/-- The interfaces that a class names. -/
def interfacesOf (child : Ancestor) : List (Ancestor × String) :=
  child.entry.interfaces.map (child, ·)

/-- The interfaces in a queue and their own interfaces, nearer ones first, without those met
before. -/
def interfaceWalk : Nat → List String → List (Ancestor × String) → List Ancestor
  | 0, _, _ => []
  | _ + 1, _, [] => []
  | steps + 1, met, (child, name) :: queue =>
    match catalog.class? name with
    | none => interfaceWalk steps met queue
    | some entry =>
      if met.contains entry.key then interfaceWalk steps met queue
      else
        let found := bindAncestor child entry
        found :: interfaceWalk steps (entry.key :: met) (queue ++ interfacesOf found)

/-- How many interfaces are named in all. -/
def interfaceCount : Nat := (catalog.classes.values.flatMap (·.interfaces)).length

/-- The order in which members of a class are looked for; empty if there is no such class. -/
def ancestry (name : String) : List Ancestor :=
  match catalog.class? name with
  | none => []
  | some entry =>
    let chain := catalog.parentChain catalog.classes.size [] ⟨entry, {}⟩
    chain ++ catalog.interfaceWalk catalog.interfaceCount (chain.map (·.entry.key))
      (chain.flatMap interfacesOf)

/-- The names of the classes above a class. -/
def ancestors (name : String) : List String := ((catalog.ancestry name).drop 1).map (·.entry.name)

/-- The first class is the second or below it. -/
def isSubclass (child parent : String) : Bool :=
  Name.symbolKey child == Name.symbolKey parent
    || (catalog.ancestors child).any fun name => Name.symbolKey name == Name.symbolKey parent

end Catalog

end StubCatalog
