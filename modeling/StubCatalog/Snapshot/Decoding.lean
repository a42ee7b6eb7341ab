import StubCatalog.Catalog.Basic
import StubCatalog.TypeExpr.Encoding
import StubCatalog.TypeExpr.Parser
import StubCatalog.Validation

/-! # Catalogs from data

Fields may be left out if they have a usual value, unknown fields are ignored, and a type may also
be given as text. -/

namespace StubCatalog.Snapshot

/-- A checked value; a number too large to be converted stops the reading. -/
abbrev Decoded (α : Type) := Validated TypeExpr.DecodeError α

open Expect

/-- The message about data that are no record. -/
def noRecord (name : String) : String :=
  "Input should be a valid dictionary or instance of " ++ name

/-- A type. -/
def type (j : Json) : Decoded TypeExpr :=
  match j with
  | .obj _ =>
    match TypeExpr.ofJson j with
    | .ok t => .valid t
    | .error .tooLarge => .halted .tooLarge
    | .error e => .refuse ("Value error, " ++ e.message)
  | .str s =>
    match TypeExpr.parseLenient s with
    | .ok t => .valid t
    | .error e => .refuse ("Value error, " ++ e.message)
  | _ => .refuse ("Value error, expected a type, got " ++ j.kindName)

/-- A value of a constant. -/
def scalar (j : Json) : Decoded Scalar :=
  match Scalar.ofJson? j with
  | some v => .valid v
  | none => .invalid
    [⟨["bool"], "Input should be a valid boolean"⟩, ⟨["int"], "Input should be a valid integer"⟩,
      ⟨["float"], "Input should be a valid number"⟩, ⟨["str"], "Input should be a valid string"⟩]

/-- A place in a file. -/
def location : Json → Decoded Location :=
  record (noRecord "SourceLocation") fun j =>
    Location.mk <$> required j "file" text <*> required j "line" integer
      <*> optional j "column" 1 integer

/-- A declared symbol. -/
def declaration : Json → Decoded Declaration :=
  record (noRecord "Declaration") fun j =>
    Declaration.mk <$> required j "name" text <*> required j "qualified_name" text
      <*> required j "kind" (choice DeclarationKind.all DeclarationKind.label)
      <*> optional j "visibility" .isPublic (choice Visibility.all Visibility.label)
      <*> optional j "is_static" false flag <*> optional j "is_abstract" false flag
      <*> optional j "is_final" false flag <*> optional j "is_readonly" false flag
      <*> optional j "is_deprecated" false flag <*> optional j "location" none (nullable location)

/-- A template parameter. -/
def templateParameter : Json → Decoded TemplateParameter :=
  record (noRecord "TemplateParameter") fun j =>
    TemplateParameter.mk <$> required j "name" text <*> optional j "bound" none (nullable type)
      <*> optional j "variance" .invariant
        (choice [.invariant, .covariant, .contravariant] Variance.label)

/-- A parameter. -/
def parameter : Json → Decoded Parameter :=
  record (noRecord "Parameter") fun j =>
    Parameter.mk <$> required j "name" text <*> optional j "type" .mixed type
      <*> optional j "native_type" none (nullable type)
      <*> optional j "out_type" none (nullable type)
      <*> optional j "has_default" false flag <*> optional j "default" .null scalar
      <*> optional j "default_expression" none (nullable text)
      <*> optional j "is_variadic" false flag <*> optional j "is_by_reference" false flag
      <*> optional j "is_promoted" false flag

/-- An assertion. -/
def assertion : Json → Decoded Assertion :=
  record (noRecord "Assertion") fun j =>
    Assertion.mk <$> required j "kind" (choice [.always, .ifTrue, .ifFalse] AssertionKind.label)
      <*> required j "parameter" text <*> required j "type" type <*> optional j "negated" false flag

/-- A signature. -/
def signature : Json → Decoded Signature :=
  record (noRecord "Signature") fun j =>
    Signature.mk <$> optional j "parameters" [] (list parameter)
      <*> optional j "return_type" .mixed type
      <*> optional j "native_return_type" none (nullable type)
      <*> optional j "templates" [] (list templateParameter) <*> optional j "throws" [] (list type)
      <*> optional j "assertions" [] (list assertion)
      <*> optional j "returns_by_reference" false flag <*> optional j "is_pure" false flag
      <*> optional j "is_mutation_free" false flag <*> optional j "is_deprecated" false flag
      <*> optional j "no_named_arguments" false flag
      <*> optional j "ignore_nullable_return" false flag
      <*> optional j "ignore_falsable_return" false flag
      <*> optional j "location" none (nullable location)

/-- The signatures of a function. -/
def signatures : Json → Decoded (List Signature) :=
  record (noRecord "OverloadSet") fun j => optional j "signatures" [] (list signature)

/-- A function. -/
def function : Json → Decoded FunctionEntry :=
  record (noRecord "FunctionEntry") fun j =>
    FunctionEntry.mk <$> required j "declaration" declaration <*> required j "overloads" signatures

/-- A method. -/
def method : Json → Decoded MethodEntry :=
  record (noRecord "MethodEntry") fun j =>
    MethodEntry.mk <$> required j "declaration" declaration <*> required j "owner" text
      <*> required j "declared_in" text <*> required j "overloads" signatures

/-- A property. -/
def property : Json → Decoded PropertyEntry :=
  record (noRecord "PropertyEntry") fun j =>
    PropertyEntry.mk <$> required j "declaration" declaration <*> required j "owner" text
      <*> required j "declared_in" text <*> optional j "type" .mixed type
      <*> optional j "native_type" none (nullable type) <*> optional j "has_default" false flag
      <*> optional j "default" .null scalar

/-- A constant. -/
def constant : Json → Decoded ConstantEntry :=
  record (noRecord "ConstantEntry") fun j =>
    ConstantEntry.mk <$> required j "declaration" declaration
      <*> optional j "owner" none (nullable text) <*> optional j "type" .mixed type
      <*> optional j "value" .null scalar <*> optional j "is_value_known" false flag
      <*> optional j "expression" none (nullable text)

/-- A class. -/
def classEntry : Json → Decoded ClassEntry :=
  record (noRecord "ClassEntry") fun j =>
    ClassEntry.mk <$> required j "declaration" declaration
      <*> required j "kind" (choice ClassKind.all ClassKind.label)
      <*> optional j "parent" none (nullable text) <*> optional j "interfaces" [] (list text)
      <*> optional j "traits" [] (list text) <*> optional j "templates" [] (list templateParameter)
      <*> optional j "ancestor_type_arguments" {} (table (list type))
      <*> optional j "methods" {} (table method) <*> optional j "properties" {} (table property)
      <*> optional j "constants" {} (table constant) <*> optional j "cases" [] (list text)
      <*> optional j "backing_type" none (nullable type)

/-- A namespace. -/
def namespaceEntry : Json → Decoded Namespace :=
  record (noRecord "Namespace") fun j =>
    Namespace.mk <$> required j "name" text <*> optional j "classes" {} (table declaration)
      <*> optional j "functions" {} (table declaration)
      <*> optional j "constants" {} (table declaration)

/-- A diagnostic; without a severity it is a warning. -/
def diagnostic : Json → Decoded Diagnostic :=
  record "Input should be a dictionary or an instance of Diagnostic" fun j =>
    Diagnostic.mk <$> required j "kind" (choice DiagnosticKind.all DiagnosticKind.label)
      <*> required j "message" text <*> optional j "file" none (nullable text)
      <*> optional j "line" none (nullable integer) <*> optional j "symbol" none (nullable text)
      <*> optional j "severity" .warning (choice [.warning, .error] Severity.label)

/-- A catalog. -/
def catalog : Json → Decoded Catalog :=
  record (noRecord "SymbolTable") fun j =>
    Catalog.mk <$> optional j "classes" {} (table classEntry)
      <*> optional j "functions" {} (table function) <*> optional j "constants" {} (table constant)
      <*> optional j "namespaces" {} (table namespaceEntry)
      <*> optional j "diagnostics" [] (list diagnostic)

end StubCatalog.Snapshot
