import StubCatalog.Text.Basic
import StubCatalog.Text.Lowercase
import StubCatalog.Text.Word

/-! # Clauses of declarations

The elements of constant and property declarations, the cases of enumerations, calls that define a
constant, and the words of a header, read from their text. -/

namespace StubCatalog.Stub.Clause

/-- Drops blanks in front. -/
def skipBlanks (cs : List Char) : List Char := cs.dropWhile Text.isBlank

/-- Drops blanks at the end. -/
def dropBlanksEnd (cs : List Char) : List Char := Text.dropEndWhile Text.isBlank cs

/-- What stands behind an equals sign. -/
def valueOf? : List Char → Option (List Char)
  | '=' :: rest => some (Text.trimBlanks rest)
  | _ => none

/-- A name with its value. -/
structure Binding where
  name : String
  value : Option String
  deriving DecidableEq, Repr

/-- A constant and its value. -/
def constantElement? (text : String) : Option Binding := do
  let (name, rest) ← Text.takeIdentifier? (skipBlanks text.toList)
  let value ← valueOf? (skipBlanks rest)
  return ⟨String.ofList name, some (String.ofList value)⟩

/-- Drops a semicolon at the end. -/
def dropSemicolon (cs : List Char) : List Char :=
  match (dropBlanksEnd cs).reverse with
  | ';' :: rest => dropBlanksEnd rest.reverse
  | _ => dropBlanksEnd cs

/-- A case and its value. -/
def enumCase? (text : String) : Option Binding := do
  let rest ← Text.dropStart? "case".toList (skipBlanks text.toList)
  let (name, rest) ← match rest with
    | [] => none
    | c :: _ => if Text.isBlank c then Text.takeIdentifier? (skipBlanks rest) else none
  match valueOf? (skipBlanks rest) with
  | some value => return ⟨String.ofList name, some (String.ofList (dropSemicolon value))⟩
  | none => if (dropSemicolon rest).isEmpty then return ⟨String.ofList name, none⟩ else none

/-- A property and its default value. -/
def propertyAt? (cs : List Char) : Option Binding :=
  match cs with
  | '$' :: rest => do
    let (name, rest) ← Text.takeIdentifier? rest
    match valueOf? (skipBlanks rest) with
    | some value => return ⟨String.ofList name, some (String.ofList value)⟩
    | none => if (skipBlanks rest).isEmpty then return ⟨String.ofList name, none⟩ else none
  | _ => none

/-- The element of a property declaration: the first property that runs to the end of the text. -/
def propertyFrom? : List Char → Option Binding
  | [] => none
  | c :: rest => (propertyAt? (c :: rest)).or (propertyFrom? rest)

/-- The first property in a text. -/
def propertyElement? (text : String) : Option Binding := propertyFrom? text.toList

/-- A name in quotes, and what stands behind it. -/
def quotedName? (cs : List Char) : Option (List Char × List Char) :=
  match cs with
  | q :: rest =>
    if q == '\'' || q == '"' then
      let isQuote (c : Char) : Bool := c == '\'' || c == '"'
      let name := rest.takeWhile (!isQuote ·)
      match rest.dropWhile (!isQuote ·) with
      | close :: behind => if close == q && !name.isEmpty then some (name, behind) else none
      | [] => none
    else none
  | [] => none

/-- A constant that is declared by a call. -/
def define? (text : String) : Option Binding := do
  let cs := skipBlanks text.toList
  let cs := match cs with
    | '\\' :: rest => rest
    | _ => cs
  let (_, rest) ← Text.takeFolded? "define".toList cs
  let rest ← Text.dropStart? ['('] (skipBlanks rest)
  let (name, rest) ← quotedName? (skipBlanks rest)
  let rest ← Text.dropStart? [','] (skipBlanks rest)
  match (dropSemicolon rest).reverse with
  | ')' :: value => return ⟨String.ofList name, some (Text.trim (String.ofList value.reverse))⟩
  | _ => none

/-- A character of a qualified name. -/
def isNameChar (c : Char) : Bool := Text.isWord c || c == '\\'

/-- The backing type, if an enumeration's header starts here. -/
def backingAt? (cs : List Char) : Option String := do
  let (_, rest) ← Text.takeFolded? "enum".toList cs
  let rest ← match rest with
    | c :: _ => if Text.isBlank c then some (skipBlanks rest) else none
    | [] => none
  if !rest.head?.any isNameChar then none
  let rest ← Text.dropStart? [':'] (skipBlanks (rest.dropWhile isNameChar))
  let type := (skipBlanks rest).takeWhile isNameChar
  if type.isEmpty then none else some (String.ofList type)

/-- The type that backs an enumeration; `inWord` tells that a word goes on at the start. -/
def backingFrom? (inWord : Bool) : List Char → Option String
  | [] => none
  | c :: rest =>
    (if inWord then none else backingAt? (c :: rest)).or (backingFrom? (Text.isWord c) rest)

/-- The backing type in a header. -/
def backingType? (header : String) : Option String := backingFrom? false header.toList

/-- The traits in a statement that uses them. -/
def traitNames (text : String) : List String :=
  match Text.takeFolded? "use".toList (skipBlanks text.toList) with
  | some (_, c :: rest) =>
    if Text.isBlank c then
      let names := (skipBlanks rest).takeWhile fun d => d != ';' && d != '{'
      (((Text.fields ',' names).map Text.trimBlanks).filter (!·.isEmpty)).map String.ofList
    else []
  | _ => []

/-- The modifiers of classes. -/
def classModifiers : List String := ["abstract", "final", "readonly"]

/-- The words that classes are declared by. -/
def classWords : List String := ["class", "interface", "trait", "enum"]

/-- The modifiers in front of a class. -/
def modifiers (header : String) : List String :=
  (((Text.words header.toList).map fun word => Text.lower (String.ofList word)).takeWhile
    (!classWords.contains ·)).filter classModifiers.contains

end StubCatalog.Stub.Clause
