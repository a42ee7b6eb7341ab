import StubCatalog.Catalog.Types
import StubCatalog.Json.Printer
import StubCatalog.Json.Reader
import StubCatalog.Snapshot.Decoding
import StubCatalog.Snapshot.Encoding

/-! # Snapshots

A snapshot wraps a catalog with the name of the format and its version. -/

namespace StubCatalog.Snapshot

/-- The name of the format. -/
def formatName : String := "stubdb-symbol-table"

/-- The version of the format. -/
def formatVersion : Int := 1

/-- Why a snapshot is not read. -/
inductive Error where
  | invalidJson (error : Json.ReadError)
  | otherFormat
  | otherVersion (shown : String)
  | invalidCatalog (problems : List Problem)
  | number (error : TypeExpr.DecodeError)

/-- The text of the error. -/
def Error.message : Error → String
  | .invalidJson (.number e) => e.message
  | .invalidJson e => "Invalid JSON format: " ++ e.message
  | .otherFormat => "Not a stubdb snapshot: expected format " ++ Text.quoted formatName
  | .otherVersion shown =>
    "Unsupported snapshot version: got " ++ shown ++ ", expected " ++ toString formatVersion
  | .invalidCatalog problems => "Symbol table validation failed: " ++ Problem.texts problems
  | .number e => e.message

/-- A catalog with the name and the version of the format. -/
def toJson (catalog : Catalog) : Json :=
  .obj [("format", .str formatName), ("version", .int formatVersion),
    ("table", catalog.toJson)]

/-- Why a snapshot is not written. -/
inductive WriteError where
  | type (error : Numeral.Error)
  | value (error : Numeral.Error)
  deriving DecidableEq, Repr

/-- What is wrong. -/
def WriteError.cause : WriteError → String
  | .type e => "Error calling function `type_to_dict`: ValueError: " ++ e.message
  | .value e => e.message

/-- The text of the error. -/
def WriteError.message (e : WriteError) : String :=
  "Failed to serialize symbol table: " ++ e.cause

/-- The data of a snapshot, if all integers in its types can be written. -/
def data (catalog : Catalog) : Except WriteError Json :=
  if catalog.types.all fun t => t.toJson.isWritable then .ok (toJson catalog)
  else .error (.type .unwritable)

/-- The snapshot of a catalog; its types are looked at before its values. -/
def write (catalog : Catalog) : Except WriteError String := do
  match (← data catalog).written with
  | .ok j => return j.pretty 0
  | .error e => throw (.value e)

/-- The data equal the version of the format. -/
def isVersion : Json → Bool
  | .int n => n == formatVersion
  | .float d => d.same (.ofInt formatVersion)
  | .bool b => b
  | _ => false

/-- The catalog in the data of a snapshot. -/
def ofJson (j : Json) : Except Error Catalog :=
  match j.field? "format" with
  | some (.str name) =>
    if name ≠ formatName then .error .otherFormat
    else
      let version := (j.field? "version").getD .null
      if !isVersion version then .error (.otherVersion version.shown)
      else match catalog ((j.field? "table").getD (.obj [])) with
        | .valid c => .ok c
        | .invalid problems => .error (.invalidCatalog problems)
        | .halted e => .error (.number e)
  | _ => .error .otherFormat

/-- The catalog in the text of a snapshot. -/
def read (text : String) : Except Error Catalog :=
  match Json.parse text with
  | .error e => .error (.invalidJson e)
  | .ok j => ofJson j

end StubCatalog.Snapshot
