import StubCatalog.Build.Inheritance

/-! # Taking in traits

A class has its own members, and then those of the traits that it uses, in order, with the type
arguments that it gives them. -/

namespace StubCatalog.Build

/-- Adds the pairs of a second table whose names are new, with their values changed. -/
def fillFrom {α : Type} (own other : Table α) (f : α → α) : Table α :=
  other.pairs.foldl (fun table pair => table.insertNew pair.1 (f pair.2)) own

/-- A trait's method as that of the class. -/
def inheritMethod (owner : String) (bindings : Table TypeExpr) (method : MethodEntry) :
    MethodEntry :=
  { method with
    owner
    declaration :=
      { method.declaration with qualifiedName := owner ++ "::" ++ method.declaration.name }
    signatures := method.signatures.map (Signature.instantiateOuter bindings) }

/-- A trait's property as that of the class. -/
def inheritProperty (owner : String) (bindings : Table TypeExpr) (property : PropertyEntry) :
    PropertyEntry :=
  { property with owner, type := TypeExpr.substitute bindings property.type }

/-- Fills in the members of a trait that the class does not have. -/
def takeTrait (entry source : ClassEntry) : ClassEntry :=
  let bindings :=
    bindTemplates source.templates ((entry.ancestorArguments.get? source.key).getD [])
  { entry with
    methods := fillFrom entry.methods source.methods (inheritMethod entry.name bindings)
    properties := fillFrom entry.properties source.properties (inheritProperty entry.name bindings)
    constants := fillFrom entry.constants source.constants fun c =>
      { c with owner := some entry.name } }

/-! ### All classes -/

/-- The classes as they are by now, the keys of those that have all members of their traits, and the
keys of those that are being completed. -/
structure Composition where
  classes : Classes
  composed : List String := []
  visiting : List String := []

/-- Completes a trait and takes its members into the class that uses it. -/
def Composition.useTrait (compose : Composition → String → Composition) (key : String)
    (state : Composition) (name : String) : Composition :=
  let inner := compose state (Name.symbolKey name)
  match inner.classes.get? (Name.symbolKey name) with
  | some source => { inner with classes := inner.classes.modify key (takeTrait · source) }
  | none => inner

/-- Completes a class after the traits that it uses. No class is being completed twice at a time, so
the number of classes bounds the depth. -/
def Composition.compose : Nat → Composition → String → Composition
  | 0, state, _ => state
  | depth + 1, state, key =>
    if state.composed.contains key || state.visiting.contains key then state
    else
      match state.classes.get? key with
      | some entry =>
        let inner := entry.traits.foldl (useTrait (compose depth) key)
          { state with visiting := key :: state.visiting }
        { inner with visiting := inner.visiting.erase key, composed := key :: inner.composed }
      | none => state

/-- All classes with the members of their traits. The classes are completed in their order. -/
def composeAll (classes : Classes) : Classes :=
  let composeKey (state : Composition) (key : String) : Composition :=
    Composition.compose classes.size { state with visiting := [] } key
  (classes.keys.foldl composeKey { classes }).classes

end StubCatalog.Build
