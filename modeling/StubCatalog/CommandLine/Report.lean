import StubCatalog.Build.Result
import StubCatalog.Query.Overload
import StubCatalog.Snapshot.Encoding
import StubCatalog.Terminal.Grid

/-! # What commands print

The texts, tables and data that commands show for the results of a build. -/

namespace StubCatalog.CommandLine

open Terminal (Printed Grid)

def locationText (l : Location) : String := l.file ++ ":" ++ toString l.line

def diagnosticsGrid (ds : List Diagnostic) : Grid where
  header := ["Severity", "Kind", "Location", "Symbol", "Message"]
  rows := ds.map fun d =>
    let place := match d.line with
      | some line => d.file.getD "" ++ ":" ++ toString line
      | none => d.file.getD ""
    [d.severity.label, d.kind.label, place, d.symbol.getD "", d.message]

abbrev Written := Except Numeral.Error String

def lineOf : Written → Printed
  | .ok text => .markup text
  | .error _ => .unprintable

def valueText (unknown : String) (c : ConstantEntry) : Written :=
  if !c.isValueKnown then .ok unknown
  else if c.value.toJson.isWritable then .ok c.value.shown
  else .error .unwritable

def memberRows (c : ClassEntry) : Except Numeral.Error (List (List String)) := do
  let methods ← (c.methods.values.flatMap fun m => m.signatures.map fun s => (m, s)).mapM
    fun (m, s) => do return ["method", ← s.written m.declaration.name, m.declaredIn]
  let properties ← c.properties.values.mapM fun p => do
    return ["property", (← p.type.written) ++ " $" ++ p.declaration.name, p.declaredIn]
  let constants ← c.constants.values.mapM fun k => do
    let value ← valueText "?" k
    return [k.declaration.kind.label,
      (← k.type.written) ++ " " ++ k.declaration.name ++ " = " ++ value, k.owner.getD ""]
  return methods ++ properties ++ constants

def membersTable (c : ClassEntry) : Printed :=
  match memberRows c with
  | .ok rows => .grid { title := some c.name, header := ["Kind", "Member", "Declared In"], rows }
  | .error _ => .unprintable

def signatureLines (name : String) (signatures : List Signature) : List Printed :=
  signatures.map fun s => lineOf ((s.written name).map ("  " ++ ·))

def summaryJson (r : BuildResult) : Json :=
  let c := r.catalog
  .obj [("files_scanned", .int r.filesScanned), ("files_skipped", .int r.filesSkipped),
    ("classes", .int c.classes.size), ("functions", .int c.functions.size),
    ("constants", .int c.constants.size), ("namespaces", .int c.namespaces.size),
    ("diagnostics", .arr (c.diagnostics.map Diagnostic.toJson))]

def summary (r : BuildResult) : List Printed :=
  let c := r.catalog
  [.markup "✓ Build completed",
    .markup ("  Files: " ++ toString r.filesScanned ++ " scanned, " ++ toString r.filesSkipped
      ++ " skipped"),
    .markup ("  Classes: " ++ toString c.classes.size),
    .markup ("  Functions: " ++ toString c.functions.size),
    .markup ("  Constants: " ++ toString c.constants.size)]
  ++ if c.diagnostics.isEmpty then []
    else [.markup ("  Diagnostics: " ++ toString c.diagnostics.length),
      .grid (diagnosticsGrid c.diagnostics)]

def diagnosticsReport (ds : List Diagnostic) : List Printed :=
  if ds.isEmpty then [.markup "No diagnostics"] else [.grid (diagnosticsGrid ds)]

def constantLines (c : ConstantEntry) : List Printed :=
  match valueText "unknown" c with
  | .ok value => [lineOf (c.type.written.map ("  Type: " ++ ·)), .markup ("  Value: " ++ value)]
  | .error _ => [.unprintable]

def classLines (catalog : Catalog) (c : ClassEntry) : List Printed :=
  let ancestors := catalog.ancestors c.name
  (if ancestors.isEmpty then [] else [.markup ("  Ancestors: " ++ Text.joined ", " ancestors)])
    ++ [membersTable c]

/-- What is printed about the symbol of a name behind its declaration: the members of a class, the
signatures of a function, or the value of a constant. -/
def symbolLines (catalog : Catalog) (name : String) : List Printed :=
  let constant := (catalog.constant? name).elim [] constantLines
  if (Catalog.splitMember? name).isSome then constant
  else match catalog.class? name with
    | some c => classLines catalog c
    | none =>
      match catalog.function? name with
      | some f => signatureLines f.declaration.name f.signatures
      | none => constant

def lookupReport (catalog : Catalog) (name : String) (d : Declaration) : List Printed :=
  [.markup (d.kind.label ++ " " ++ d.qualifiedName)]
    ++ (d.location.elim [] fun l => [.markup ("  Location: " ++ locationText l)])
    ++ (if d.isDeprecated then [.markup "  Deprecated"] else [])
    ++ symbolLines catalog name

def memberReport (m : Member) : List Printed :=
  let name := m.declaration.name
  .markup (m.kind.label ++ " " ++ m.owner ++ "::" ++ name) ::
    match m.signatures? with
    | some signatures => signatureLines name signatures
    | none => [lineOf ((m.type?.elim (.ok "None") (·.written)).map ("  Type: " ++ ·))]

end StubCatalog.CommandLine
