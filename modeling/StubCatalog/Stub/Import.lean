import StubCatalog.NamingContext

/-! # Import statements

An import statement lists names, each with an optional alias, and names that share a start in a
group. A word in front of the list, or of a name in a group, says what is imported. -/

namespace StubCatalog.Stub

/-- A name that is imported. The kind is the word in front of it, in lower case. -/
structure Import where
  kind : String
  name : String
  localName : Option String := none
  deriving DecidableEq, Repr, Inhabited

namespace Import

/-- The words for kinds that can be written. -/
def kindWords : List String := ["function", "const"]

/-- The kind without a word. -/
def defaultKind : String := "class"

/-- The word for a kind in front, and what stands behind it. -/
def takeKind? (cs : List Char) : Option (String × List Char) :=
  kindWords.findSome? fun word =>
    match Text.takeFolded? word.toList cs with
    | some (written, c :: rest) =>
      if Text.isBlank c then
        some (Text.lower (String.ofList written), rest.dropWhile Text.isBlank)
      else none
    | _ => none

/-- The kind of what is imported, and the rest. -/
def splitKind (kind : String) (cs : List Char) : String × List Char :=
  (takeKind? cs).getD (kind, cs)

/-- The text behind the word between a name and its alias, if the text starts with that word among
blanks. -/
def afterAs? (cs : List Char) : Option (List Char) :=
  match cs with
  | [] => none
  | c :: rest =>
    if Text.isBlank c then
      match Text.takeFolded? ['a', 's'] (rest.dropWhile Text.isBlank) with
      | some (_, d :: behind) => if Text.isBlank d then some behind else none
      | _ => none
    else none

/-- The name and the alias of an item, given the reversed start of the name. -/
def cutAlias (before : List Char) : List Char → List Char × Option (List Char)
  | [] => (before.reverse, none)
  | c :: rest =>
    match afterAs? (c :: rest) with
    | some found => (before.reverse, some found)
    | none => cutAlias (c :: before) rest

/-- One name with its alias. -/
def ofItem (kind : String) (item : List Char) : Import :=
  let (name, localName) := cutAlias [] item
  { kind
    name := Name.bare (String.ofList (Text.trimBlanks name))
    localName := localName.map fun cs => String.ofList (Text.trimBlanks cs) }

/-- What stands between commas. -/
def items (cs : List Char) : List (List Char) :=
  ((Text.fields ',' cs).map Text.trimBlanks).filter (!·.isEmpty)

/-- The text in front of the last closing brace, or the whole text if there is none. -/
def beforeLastBrace (cs : List Char) : List Char :=
  match cs.reverse.dropWhile (· != '}') with
  | [] => cs
  | _ :: before => before.reverse

/-- The names of a group behind their common start. -/
def ofGroup (kind : String) (start inner : List Char) : List Import :=
  let common := String.ofList (Text.dropEndWhile (· == '\\') (Text.trimBlanks start))
  (items (beforeLastBrace inner)).map fun item =>
    let (kind, rest) := splitKind kind item
    let found := ofItem kind rest
    { found with name := common ++ "\\" ++ found.name }

/-- The statement without its first word and its last sign. -/
def body (text : String) : List Char :=
  let cs := Text.trimBlanks (Text.dropEndWhile (· == ';') (Text.trimBlanks text.toList))
  if Text.lower (String.ofList (cs.take 3)) == "use" then Text.trimBlanks (cs.drop 3) else cs

/-- The names that a statement imports. -/
def parse (text : String) : List Import :=
  let (kind, rest) := splitKind defaultKind (body text)
  match rest.dropWhile (· != '{') with
  | [] => (items rest).map (ofItem kind)
  | _ :: inner => ofGroup kind (rest.takeWhile (· != '{')) inner

/-- What the name is imported for. -/
def target (i : Import) : ImportKind :=
  if i.kind == "function" then .function else if i.kind == "const" then .constant else .classLike

/-- Adds imports to a context. -/
def addAll (ctx : NamingContext) (imports : List Import) : NamingContext :=
  imports.foldl (fun ctx i => ctx.addImport i.name i.localName i.target) ctx

end Import

end StubCatalog.Stub
