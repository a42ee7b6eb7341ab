import StubCatalog.Build.Finish

/-! # Results of a build

A build also counts its files and tells whether any of them could not be read or parsed. -/

namespace StubCatalog

/-- A file that could not be read. -/
structure UnreadableFile where
  path : String
  message : String
  deriving DecidableEq, Repr, Inhabited

/-- A catalog and how many files it was built from. -/
structure BuildResult where
  catalog : Catalog
  filesScanned : Nat
  filesSkipped : Nat

namespace BuildResult

/-- Reports a file that could not be read. -/
def unreadableDiagnostic (file : UnreadableFile) : Diagnostic :=
  { kind := .ioError, message := file.message, file := some file.path }

/-- Builds a catalog and counts the files. -/
def ofFiles (settings : Settings) (files : List Stub.File)
    (unreadable : List UnreadableFile := []) : Except BuildError BuildResult := do
  let catalog ← Catalog.build settings files (unreadable.map unreadableDiagnostic)
  return {
    catalog
    filesScanned := files.length
    filesSkipped := unreadable.length + (files.filter (Build.isSkipped settings)).length }

/-- No error is reported. -/
def success (result : BuildResult) : Bool :=
  result.catalog.diagnostics.all (·.severity ≠ .error)

end BuildResult

end StubCatalog
