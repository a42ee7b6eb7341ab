import StubCatalog.FileSystem.Path
import StubCatalog.Text.Quoted

/-! # Files and directories

A snapshot of the files and directories that a run can see. -/

namespace StubCatalog

/-- Files with their contents, and directories; both by their names from the root on. -/
structure FileSystem (α : Type) where
  files : List (List String × α) := []
  directories : List (List String) := []

inductive OpenError where
  | missing
  | isDirectory
  | notDirectory
  | tooLong
  deriving DecidableEq, Repr

def OpenError.message (shown : String) : OpenError → String
  | .missing => "[Errno 2] No such file or directory: " ++ Text.quoted shown
  | .isDirectory => "[Errno 21] Is a directory: " ++ Text.quoted shown
  | .notDirectory => "[Errno 20] Not a directory: " ++ Text.quoted shown
  | .tooLong => "[Errno 36] File name too long: " ++ Text.quoted shown

namespace FileSystem

variable {α : Type} (fs : FileSystem α)

def content? (place : List String) : Option α := fs.files.lookup place

def starts (names : List String) : List (List String) :=
  (List.range (names.length + 1)).map names.take

def allDirectories : List (List String) :=
  ([] :: (fs.files.map (·.1.dropLast) ++ fs.directories).flatMap starts).eraseDups

def isDirectoryAt (place : List String) : Bool :=
  place.isEmpty || fs.directories.any place.isPrefixOf
    || fs.files.any fun (path, _) => place.length < path.length && place.isPrefixOf path

def nameIn? (directory place : List String) : Option String :=
  if directory.isPrefixOf place then place[directory.length]? else none

def namesAt (directory : List String) : List String :=
  ((fs.files.map (·.1) ++ fs.directories).filterMap (nameIn? directory)).eraseDups

def maxNameBytes : Nat := 255

def maxPathBytes : Nat := 4095

/-- Follows names from a place on. Every step starts at a directory. -/
def follow (place : List String) : List String → Except OpenError (List String)
  | [] => .ok place
  | name :: names =>
    if fs.isDirectoryAt place then
      if name.utf8ByteSize > maxNameBytes then .error .tooLong
      else follow (if name == ".." then place.dropLast else place ++ [name]) names
    else .error (if (fs.content? place).isSome then .notDirectory else .missing)

def place (p : Path) : Except OpenError (List String) :=
  if p.text.utf8ByteSize > maxPathBytes then .error .tooLong else fs.follow [] p.names

def isTooLong (p : Path) : Bool :=
  match fs.place p with
  | .error .tooLong => true
  | _ => false

def isDirectory (p : Path) : Bool :=
  match fs.place p with
  | .ok place => fs.isDirectoryAt place
  | .error _ => false

def openFile (p : Path) : Except OpenError α :=
  match fs.place p with
  | .error e => .error e
  | .ok place =>
    match fs.content? place with
    | some content => .ok content
    | none => .error (if fs.isDirectoryAt place then .isDirectory else .missing)

def isFile (p : Path) : Bool := (fs.openFile p).isOk

def contains (p : Path) : Bool := fs.isFile p || fs.isDirectory p

def names (p : Path) : List String :=
  match fs.place p with
  | .ok place => fs.namesAt place
  | .error _ => []

def directoriesFrom (p : Path) : List Path :=
  match fs.place p with
  | .error _ => []
  | .ok place =>
    (fs.allDirectories.filter place.isPrefixOf).map fun below =>
      { p with names := p.names ++ below.drop place.length }

/-- A file can be written at a path if its directory is there and it is no directory itself. -/
def writeError? (p : Path) : Option OpenError :=
  match fs.place p with
  | .error e => some e
  | .ok place => if fs.isDirectoryAt place then some .isDirectory else none

end FileSystem

end StubCatalog
