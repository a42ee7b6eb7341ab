import StubCatalog.FileSystem.Basic
import StubCatalog.FileSystem.Pattern

/-! # Selecting files below a directory

A pattern of names selects the files at any depth below a directory whose last names match; two
asterisks as a name stand for any number of directories. -/

namespace StubCatalog

inductive SelectionStep where
  | anyDepth
  | pattern (pattern : FilePattern)
  | name (name : String)
  deriving DecidableEq, Repr

structure Selection where
  steps : List SelectionStep
  directoriesOnly : Bool
  deriving DecidableEq, Repr

inductive SelectionError where
  | absolute
  | partialDepth
  deriving DecidableEq, Repr

def SelectionError.message : SelectionError → String
  | .absolute => "Non-relative patterns are unsupported"
  | .partialDepth => "Invalid pattern: '**' can only be an entire path component"

namespace Selection

def step (text : String) : Except SelectionError SelectionStep :=
  let cs := text.toList
  if text == "**" then .ok .anyDepth
  else if Text.contains ['*', '*'] cs then .error .partialDepth
  else if cs.any fun c => c == '*' || c == '?' || c == '[' then .ok (.pattern (.ofText text))
  else .ok (.name text)

def ofText (text : String) : Except SelectionError Selection := do
  let path := Path.ofText text
  if path.isAbsolute then .error .absolute
  let steps ← path.names.mapM step
  return ⟨steps, text.toList.getLast? == some '/'⟩

variable {α : Type} (fs : FileSystem α)

/-- The paths that steps lead to from a path. Every step but the last leads to directories only, and
so does the last one if `directoriesOnly` is set. -/
def follow (directoriesOnly : Bool) (p : Path) : List SelectionStep → Except Path (List Path)
  | [] => .ok [p]
  | .anyDepth :: steps => do
    return (← (fs.directoriesFrom p).mapM fun q => follow directoriesOnly q steps).flatten
  | .pattern pattern :: steps => do
    let found := ((fs.names p).filter pattern.isMatch).map p.child
    let kept := found.filter fun q => (steps.isEmpty && !directoriesOnly) || fs.isDirectory q
    return (← kept.mapM fun q => follow directoriesOnly q steps).flatten
  | .name name :: steps =>
    let q := p.child name
    if fs.isTooLong q && !q.isUnusable then .error q
    else if if steps.isEmpty && !directoriesOnly then fs.contains q else fs.isDirectory q then
      follow directoriesOnly q steps
    else .ok []

/-- The files below a directory that a pattern selects, in the order of their paths; or a path that
is too long. -/
def files (s : Selection) (directory : Path) : Except Path (List Path) := do
  let found ← follow fs s.directoriesOnly directory (.anyDepth :: s.steps)
  return (found.eraseDups.filter fs.isFile).mergeSort Path.le

end Selection

end StubCatalog
