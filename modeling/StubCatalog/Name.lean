import StubCatalog.Text.Lowercase

/-! # Qualified names

A qualified name is a path of short names with backslashes between them. Class and function names
match without regard to case, constant names with regard to the case of their last part. -/

namespace StubCatalog.Name

/-- The name without backslashes in front. -/
def bare (name : String) : String := String.ofList (name.toList.dropWhile (· == '\\'))

/-- The name `name` inside the namespace `space`; the empty namespace is the global one. -/
def join (space name : String) : String := if space == "" then name else space ++ "\\" ++ name

/-- What stands in front of the last backslash, and behind it. -/
def splitLast (path : List Char) : List Char × List Char :=
  let short := (path.reverse.takeWhile (· != '\\')).reverse
  (path.take (path.length - short.length - 1), short)

/-- The namespace and the short name. -/
def split (name : String) : String × String :=
  let (space, short) := splitLast (bare name).toList
  (String.ofList space, String.ofList short)

/-- Splits a name behind its first short name: that one, whether a backslash follows, the rest. -/
def splitFirst (name : String) : String × Bool × String :=
  let cs := name.toList
  let head := cs.takeWhile (· != '\\')
  let tail := cs.dropWhile (· != '\\')
  (String.ofList head, !tail.isEmpty, String.ofList (tail.drop 1))

/-- What classes and functions are found by: case does not count. -/
def symbolKey (name : String) : String := Text.lower (bare name)

/-- What constants are found by: the case of the short name counts. -/
def constantKey (name : String) : String :=
  let (space, short) := split name
  if space == "" then short else Text.lower space ++ "\\" ++ short

end StubCatalog.Name
