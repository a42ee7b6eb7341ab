import StubCatalog.Catalog.Basic
import StubCatalog.TypeExpr.Encoding

/-! # Catalogs as data

Every record of a catalog is an object with one field per part, in a fixed order. -/

namespace StubCatalog

mutual

/-- The value with null in place of every number that is not finite. -/
def Json.finite : Json → Json
  | .float (.finite n m e) => .float (.finite n m e)
  | .float _ => .null
  | .arr items => .arr (finiteItems items)
  | .obj fields => .obj (finiteFields fields)
  | .null => .null
  | .bool b => .bool b
  | .int n => .int n
  | .str s => .str s

/-- The items without infinite and undefined numbers. -/
def Json.finiteItems : List Json → List Json
  | [] => []
  | item :: items => item.finite :: finiteItems items

/-- The fields without infinite and undefined numbers. -/
def Json.finiteFields : List (String × Json) → List (String × Json)
  | [] => []
  | (key, value) :: fields => (key, value.finite) :: finiteFields fields

end

/-- A value that may be missing. -/
def Json.ofOption {α : Type} (f : α → Json) : Option α → Json
  | some a => f a
  | none => .null

/-- The entries as fields. -/
def Table.toJson {α : Type} (f : α → Json) (t : Table α) : Json :=
  .obj (t.pairs.map fun (key, value) => (key, f value))

/-- A list of texts. -/
def Json.ofTexts (texts : List String) : Json := .arr (texts.map .str)

/-- A type as it is stored. -/
def TypeExpr.storedJson (t : TypeExpr) : Json := t.toJson.finite

def Location.toJson (l : Location) : Json :=
  .obj [("file", .str l.file), ("line", .int l.line), ("column", .int l.column)]

def Declaration.toJson (d : Declaration) : Json :=
  .obj [("name", .str d.name), ("qualified_name", .str d.qualifiedName),
    ("kind", .str d.kind.label),
    ("visibility", .str d.visibility.label), ("is_static", .bool d.isStatic),
    ("is_abstract", .bool d.isAbstract), ("is_final", .bool d.isFinal),
    ("is_readonly", .bool d.isReadonly), ("is_deprecated", .bool d.isDeprecated),
    ("location", Json.ofOption Location.toJson d.location)]

def TemplateParameter.toJson (t : TemplateParameter) : Json :=
  .obj [("name", .str t.name), ("bound", Json.ofOption TypeExpr.storedJson t.bound),
    ("variance", .str t.variance.label)]

def Parameter.toJson (p : Parameter) : Json :=
  .obj [("name", .str p.name), ("type", p.type.storedJson),
    ("native_type", Json.ofOption TypeExpr.storedJson p.nativeType),
    ("out_type", Json.ofOption TypeExpr.storedJson p.outType), ("has_default", .bool p.hasDefault),
    ("default", p.default.toJson), ("default_expression", Json.ofText? p.defaultExpression),
    ("is_variadic", .bool p.isVariadic), ("is_by_reference", .bool p.isByReference),
    ("is_promoted", .bool p.isPromoted)]

def Assertion.toJson (a : Assertion) : Json :=
  .obj [("kind", .str a.kind.label), ("parameter", .str a.parameter), ("type", a.type.storedJson),
    ("negated", .bool a.negated)]

def Signature.toJson (s : Signature) : Json :=
  .obj [("parameters", .arr (s.parameters.map Parameter.toJson)),
    ("return_type", s.returnType.storedJson),
    ("native_return_type", Json.ofOption TypeExpr.storedJson s.nativeReturnType),
    ("templates", .arr (s.templates.map TemplateParameter.toJson)),
    ("throws", .arr (s.throws.map TypeExpr.storedJson)),
    ("assertions", .arr (s.assertions.map Assertion.toJson)),
    ("returns_by_reference", .bool s.returnsByReference), ("is_pure", .bool s.isPure),
    ("is_mutation_free", .bool s.isMutationFree), ("is_deprecated", .bool s.isDeprecated),
    ("no_named_arguments", .bool s.noNamedArguments),
    ("ignore_nullable_return", .bool s.ignoreNullableReturn),
    ("ignore_falsable_return", .bool s.ignoreFalsableReturn),
    ("location", Json.ofOption Location.toJson s.location)]

def signaturesJson (signatures : List Signature) : Json :=
  .obj [("signatures", .arr (signatures.map Signature.toJson))]

def FunctionEntry.toJson (f : FunctionEntry) : Json :=
  .obj [("declaration", f.declaration.toJson), ("overloads", signaturesJson f.signatures)]

def MethodEntry.toJson (m : MethodEntry) : Json :=
  .obj [("declaration", m.declaration.toJson), ("owner", .str m.owner),
    ("declared_in", .str m.declaredIn), ("overloads", signaturesJson m.signatures)]

def PropertyEntry.toJson (p : PropertyEntry) : Json :=
  .obj [("declaration", p.declaration.toJson), ("owner", .str p.owner),
    ("declared_in", .str p.declaredIn), ("type", p.type.storedJson),
    ("native_type", Json.ofOption TypeExpr.storedJson p.nativeType),
    ("has_default", .bool p.hasDefault),
    ("default", p.default.toJson)]

def ConstantEntry.toJson (c : ConstantEntry) : Json :=
  .obj [("declaration", c.declaration.toJson), ("owner", Json.ofText? c.owner),
    ("type", c.type.storedJson), ("value", c.value.toJson),
    ("is_value_known", .bool c.isValueKnown),
    ("expression", Json.ofText? c.expression)]

def ClassEntry.toJson (c : ClassEntry) : Json :=
  .obj [("declaration", c.declaration.toJson), ("kind", .str c.kind.label),
    ("parent", Json.ofText? c.parent), ("interfaces", Json.ofTexts c.interfaces),
    ("traits", Json.ofTexts c.traits),
    ("templates", .arr (c.templates.map TemplateParameter.toJson)),
    ("ancestor_type_arguments",
      c.ancestorArguments.toJson fun args => .arr (args.map TypeExpr.storedJson)),
    ("methods", c.methods.toJson MethodEntry.toJson),
    ("properties", c.properties.toJson PropertyEntry.toJson),
    ("constants", c.constants.toJson ConstantEntry.toJson), ("cases", Json.ofTexts c.cases),
    ("backing_type", Json.ofOption TypeExpr.storedJson c.backingType)]

def Namespace.toJson (n : Namespace) : Json :=
  .obj [("name", .str n.name), ("classes", n.classes.toJson Declaration.toJson),
    ("functions", n.functions.toJson Declaration.toJson),
    ("constants", n.constants.toJson Declaration.toJson)]

def Diagnostic.toJson (d : Diagnostic) : Json :=
  .obj [("kind", .str d.kind.label), ("message", .str d.message), ("file", Json.ofText? d.file),
    ("line", Json.ofOption .int d.line), ("symbol", Json.ofText? d.symbol),
    ("severity", .str d.severity.label)]

def Catalog.toJson (c : Catalog) : Json :=
  .obj [("classes", c.classes.toJson ClassEntry.toJson),
    ("functions", c.functions.toJson FunctionEntry.toJson),
    ("constants", c.constants.toJson ConstantEntry.toJson),
    ("namespaces", c.namespaces.toJson Namespace.toJson),
    ("diagnostics", .arr (c.diagnostics.map Diagnostic.toJson))]

end StubCatalog
