import StubCatalog.Discovery
import StubCatalog.Json.Reader
import StubCatalog.SyntaxTree.Decoding

/-! # The files of a run

The files that a run can see are given line by line, each as an object. -/

namespace StubCatalog.CommandLine

inductive InputError where
  | notJson (error : Json.ReadError)
  | malformed
  deriving DecidableEq, Repr

def InputError.message : InputError → String
  | .notJson e => e.message
  | .malformed => "a file or a directory was expected"

/-- Adds the file or directory that an object stands for. A relative path is seen from
`directory`. -/
def addEntry? (directory : Path) (fs : FileSystem Stub.Content) (entry : Json) :
    Option (FileSystem Stub.Content) :=
  match entry.field? "path", entry.field? "source", entry.field? "tree" with
  | some (.str path), some (.str source), some tree => do
    let root ← SyntaxNode.ofJson? tree
    let place := (directory.resolve (.ofText path)).names
    return { fs with files := fs.files ++ [(place, ⟨source.toUTF8, root⟩)] }
  | some (.str path), none, none =>
    let place := (directory.resolve (.ofText path)).names
    some { fs with directories := fs.directories ++ [place] }
  | _, _, _ => none

def addLine (directory : Path) (fs : FileSystem Stub.Content) (line : String) :
    Except InputError (FileSystem Stub.Content) :=
  match Json.parse line with
  | .error e => .error (.notJson e)
  | .ok entry =>
    match addEntry? directory fs entry with
    | some fs => .ok fs
    | none => .error .malformed

end StubCatalog.CommandLine
