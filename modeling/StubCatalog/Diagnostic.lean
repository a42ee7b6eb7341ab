import StubCatalog.Json.Basic
import StubCatalog.Table

/-! # Diagnostics

Malformed input is recorded as a diagnostic, and the part that it concerns is dropped or degraded.
-/

namespace StubCatalog

/-- What is reported. -/
inductive DiagnosticKind where
  | syntaxError
  | malformedTag
  | unknownType
  | unknownParameter
  | unresolvedName
  | unresolvedConditionalSubject
  | annotationConflict
  | duplicateDeclaration
  | inheritanceCycle
  | ioError
  deriving DecidableEq, Repr, Inhabited

namespace DiagnosticKind

/-- All kinds. -/
def all : List DiagnosticKind :=
  [.syntaxError, .malformedTag, .unknownType, .unknownParameter, .unresolvedName,
    .unresolvedConditionalSubject, .annotationConflict, .duplicateDeclaration, .inheritanceCycle,
    .ioError]

/-- The name of a kind in data. -/
def label : DiagnosticKind → String
  | .syntaxError => "syntax_error"
  | .malformedTag => "malformed_tag"
  | .unknownType => "unknown_type"
  | .unknownParameter => "unknown_parameter"
  | .unresolvedName => "unresolved_name"
  | .unresolvedConditionalSubject => "unresolved_conditional_subject"
  | .annotationConflict => "annotation_conflict"
  | .duplicateDeclaration => "duplicate_declaration"
  | .inheritanceCycle => "inheritance_cycle"
  | .ioError => "io_error"

/-- The kind of this name. -/
def ofLabel? (name : String) : Option DiagnosticKind := all.find? (·.label == name)

theorem ofLabel?_label (k : DiagnosticKind) : ofLabel? k.label = some k := by
  cases k <;> decide

end DiagnosticKind

/-- How bad it is. -/
inductive Severity where
  | warning
  | error
  deriving DecidableEq, Repr, Inhabited

namespace Severity

/-- The word for a severity. -/
def label : Severity → String
  | .warning => "warning"
  | .error => "error"

/-- The severity of this name. -/
def ofLabel? (name : String) : Option Severity := [.warning, .error].find? (·.label == name)

end Severity

/-- Only input that could not be read or parsed is an error. -/
def DiagnosticKind.severity : DiagnosticKind → Severity
  | .syntaxError => .error
  | .ioError => .error
  | _ => .warning

/-- Something that is reported. -/
structure Diagnostic where
  kind : DiagnosticKind
  message : String
  file : Option String := none
  line : Option Int := none
  symbol : Option String := none
  severity : Severity := kind.severity
  deriving DecidableEq, Repr, Inhabited

namespace Diagnostic

/-- The diagnostic as it is shown. -/
def text (d : Diagnostic) : String :=
  let file := match d.file with
    | some "" => "<unknown>"
    | some file => file
    | none => "<unknown>"
  let place := match d.line with
    | some line => file ++ ":" ++ toString line
    | none => file
  place ++ ": " ++ d.kind.label ++ ": " ++ d.message

/-- The diagnostics of a kind. -/
def ofKind (kind : DiagnosticKind) (ds : List Diagnostic) : List Diagnostic :=
  ds.filter (·.kind == kind)

/-- How many diagnostics there are of each kind. -/
def counts (ds : List Diagnostic) : Table Nat :=
  ds.foldl (fun t d => t.insert d.kind.label ((t.get? d.kind.label).getD 0 + 1)) {}

end Diagnostic

end StubCatalog
