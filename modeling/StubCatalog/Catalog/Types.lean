import StubCatalog.Catalog.Basic

/-! # The types in a catalog

All types that a catalog holds, those of signatures, properties, constants and classes. -/

namespace StubCatalog

/-- The types in a parameter. -/
def Parameter.types (p : Parameter) : List TypeExpr :=
  p.type :: p.nativeType.toList ++ p.outType.toList

/-- The bounds of template parameters. -/
def boundTypes (templates : List TemplateParameter) : List TypeExpr :=
  templates.filterMap (·.bound)

/-- The types in a signature. -/
def Signature.types (s : Signature) : List TypeExpr :=
  s.parameters.flatMap Parameter.types ++ s.returnType :: s.nativeReturnType.toList
    ++ boundTypes s.templates ++ s.throws ++ s.assertions.map (·.type)

/-- The types in a property. -/
def PropertyEntry.types (p : PropertyEntry) : List TypeExpr := p.type :: p.nativeType.toList

/-- The types in a class. -/
def ClassEntry.types (c : ClassEntry) : List TypeExpr :=
  boundTypes c.templates ++ c.ancestorArguments.values.flatten
    ++ c.methods.values.flatMap (·.signatures.flatMap Signature.types)
    ++ c.properties.values.flatMap PropertyEntry.types
    ++ c.constants.values.map (·.type) ++ c.backingType.toList

/-- The types in a catalog. -/
def Catalog.types (c : Catalog) : List TypeExpr :=
  c.classes.values.flatMap ClassEntry.types
    ++ c.functions.values.flatMap (·.signatures.flatMap Signature.types)
    ++ c.constants.values.map (·.type)

end StubCatalog
