import StubCatalog.Build.Result
import StubCatalog.FileSystem.Selection
import StubCatalog.Stub.Scan

/-! # Builds from files

Finding the stub files below a directory and building a catalog from them. A file that cannot be
opened does not stop a build. -/

namespace StubCatalog

/-- The bytes of a file and its tree. -/
structure Stub.Content where
  bytes : ByteArray
  root : SyntaxNode

/-- Why a directory is not built. -/
inductive DiscoveryError where
  | missing (path : Path)
  | unreachable (path : Path) (error : OpenError)
  | pattern (error : SelectionError)
  | build (error : BuildError)

namespace Discovery

variable (fs : FileSystem Stub.Content) (settings : Settings)

/-- The files to build. -/
def files (root : Path) : Except DiscoveryError (List Path) := do
  if fs.isFile root then return [root]
  let selection ← (Selection.ofText settings.filePattern).mapError .pattern
  (selection.files fs root).mapError (.unreachable · .tooLong)

/-- What a file declares, if it can be read. -/
def scan (p : Path) : Except UnreadableFile Stub.File :=
  match fs.openFile p with
  | .ok content => .ok (Stub.Source.scan ⟨p.text, content.bytes⟩ content.root)
  | .error e => .error ⟨p.text, "Cannot read " ++ p.text ++ ": " ++ e.message p.text⟩

/-- Builds a catalog from files. -/
def buildFiles (paths : List Path) : Except BuildError BuildResult :=
  if paths.any (·.isUnusable) then .error .unusablePath
  else
    let scanned := paths.map (scan fs)
    BuildResult.ofFiles settings (scanned.filterMap (·.toOption))
      (scanned.filterMap fun
        | .error e => some e
        | .ok _ => none)

/-- Builds a catalog from a directory or file. -/
def buildDirectory (root : Path) : Except DiscoveryError BuildResult :=
  if fs.isTooLong root && !root.isUnusable then .error (.unreachable root .tooLong)
  else if !fs.contains root then .error (.missing root)
  else match files fs settings root with
    | .error e => .error e
    | .ok paths => (buildFiles fs settings paths).mapError .build

end Discovery

/-- The text of the error. -/
def DiscoveryError.message? : DiscoveryError → Option String
  | .missing p => some ("Stub path does not exist: " ++ p.text)
  | .unreachable p e => some (e.message p.text)
  | .pattern e => some e.message
  | .build _ => none

end StubCatalog
