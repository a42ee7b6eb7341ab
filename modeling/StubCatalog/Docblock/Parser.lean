import StubCatalog.Docblock.Basic
import StubCatalog.Docblock.TagBody
import StubCatalog.Text.Lowercase
import StubCatalog.Text.Quoted

/-! # Reading docblocks

A docblock is free text followed by tags; a tag runs until the next tag or an empty line. Of two
tags about the same thing the one of higher rank stays, and among equals the first. A malformed tag
is kept as it is, with a warning. -/

namespace StubCatalog.Docblock

/-! ### Lines and tags -/

/-- Drops the start of a comment. -/
def dropOpening (cs : List Char) : List Char :=
  match cs with
  | '/' :: '*' :: '*' :: rest => rest
  | '/' :: '*' :: rest => rest
  | _ => cs

/-- Drops the end of a comment. -/
def dropClosing (cs : List Char) : List Char :=
  match cs.reverse with
  | '/' :: '*' :: rest => rest.reverse
  | _ => cs

/-- Drops the star in front of a line. -/
def dropStar (line : List Char) : List Char :=
  match line with
  | '*' :: ' ' :: rest => rest
  | '*' :: rest => rest
  | _ => line

/-- The lines of a comment without its marks. -/
def commentLines (text : String) : List (List Char) :=
  (Text.lines (dropClosing (dropOpening (Text.trimBlanks text.toList)))).map fun line =>
    Text.dropEndWhile Text.isBlank (dropStar (Text.trimBlanks line))

/-- A character of a tag's name. -/
def isTagChar (c : Char) : Bool := Text.isWord c || c == '-' || c == '\\'

/-- The name of the tag that a line starts with, and what stands behind it. -/
def tagLine? : List Char → Option (List Char × List Char)
  | '@' :: c :: rest =>
    if c.isAlpha then some (c :: rest.takeWhile isTagChar, rest.dropWhile isTagChar) else none
  | _ => none

/-- Free text and tags read so far, in reverse, and so the lines of a tag; `isOpen` tells that a
further line belongs to the last tag. -/
structure TagScan where
  prose : List (List Char) := []
  tags : List (List Char × List (List Char)) := []
  isOpen : Bool := false

/-- Takes up a line: a tag, the rest of one, or prose. -/
def TagScan.step (scan : TagScan) (line : List Char) : TagScan :=
  let stripped := Text.trimBlanks line
  match tagLine? stripped with
  | some (name, body) => { scan with tags := (name, [body]) :: scan.tags, isOpen := true }
  | none =>
    if stripped.isEmpty then
      { scan with
        isOpen := false
        prose := if scan.tags.isEmpty then [] :: scan.prose else scan.prose }
    else match scan.isOpen, scan.tags with
      | true, (name, body) :: tags => { scan with tags := (name, stripped :: body) :: tags }
      | _, [] => { scan with prose := stripped :: scan.prose }
      | _, _ => scan

/-- The prose and the tags of a comment. -/
def splitTags (lines : List (List Char)) : List (List Char) × List PlainTag :=
  let scan := lines.foldl TagScan.step {}
  (scan.prose.reverse, scan.tags.reverse.map fun (name, body) =>
    ⟨String.ofList name, String.ofList (Text.trimBlanks (Text.join ['\n'] body.reverse))⟩)

/-- What tags addressed to a tool start with. -/
def toolMarks : List (String × TagSource) := [("psalm-", .psalm), ("phpstan-", .phpstan)]

/-- The name of a tag, and the tool that it is addressed to. -/
def plainName (name : String) : String × TagSource :=
  let lowered := Text.lower name
  match toolMarks.find? fun mark => mark.1.toList.isPrefixOf lowered.toList with
  | some (mark, source) => (String.ofList (lowered.toList.drop mark.length), source)
  | none => (lowered, .plain)

/-! ### Free text -/

/-- Prose between empty lines. -/
def paragraphs (prose : List (List Char)) : List (List (List Char)) :=
  (prose.foldr (fun line found =>
    if line.isEmpty then [] :: found
    else match found with
      | [] => [[line]]
      | paragraph :: others => (line :: paragraph) :: others) []).filter (!·.isEmpty)

/-- The text refers to the documentation of a parent. -/
def mentionsInheritance (text : List Char) : Bool :=
  Text.contains "@inheritdoc".toList (text.map Text.foldLetter)

/-- A comment without tags. -/
def ofProse (prose : List (List Char)) : Docblock :=
  let texts := (paragraphs prose).map (Text.join [' '])
  { summary := String.ofList (texts.headD [])
    description := String.ofList (Text.join ['\n', '\n'] (texts.drop 1))
    inheritsDoc := texts.any mentionsInheritance }

/-! ### Single tags -/

/-- What is wrong with a tag. -/
inductive Malformed where
  | missingType
  | unbalanced (body : String)
  | missingParameter (typeText : String)
  | missingTemplate
  | invalidTemplate (name : String)
  | missingAsserted
  deriving DecidableEq, Repr

/-- The text of a warning. -/
def Malformed.message : Malformed → String
  | .missingType => "missing type"
  | .unbalanced body => "unbalanced brackets in " ++ Text.quoted body
  | .missingParameter typeText => "missing parameter name after " ++ Text.quoted typeText
  | .missingTemplate => "missing template name"
  | .invalidTemplate name => "invalid template name " ++ Text.quoted name
  | .missingAsserted => "missing asserted parameter"

/-- The type in front of a tag's text, and the rest. -/
def splitType (body : String) : Except Malformed (String × String) :=
  if body == "" then .error .missingType
  else match TagBody.split? body with
    | none => .error (.unbalanced body)
    | some (type, rest) => .ok (TagBody.collapse type, Text.trim rest)

/-- A tag with a type and a description. -/
def typedTag (source : TagSource) (body : String) : Except Malformed TypedTag := do
  let (typeText, description) ← splitType body
  return { typeText, description, source }

/-- A tag with a type and a parameter's name; none if it names a parameter without a type. -/
def parameterTag (source : TagSource) (body : String) : Except Malformed (Option TypedTag) :=
  if (TagBody.parameterName? (String.ofList (body.toList.dropWhile Text.isBlank))).isSome then
    .ok none
  else do
    let (typeText, rest) ← splitType body
    match TagBody.parameterName? rest with
    | none => throw (.missingParameter typeText)
    | some found =>
      return some
        { typeText
          name := some found.name
          description := Text.trim found.rest
          source
          variadic := found.variadic
          byReference := found.byReference }

/-- A tag with a type and perhaps a name. -/
def varTag (source : TagSource) (body : String) : Except Malformed TypedTag := do
  let tag ← typedTag source body
  match TagBody.parameterName? tag.description with
  | none => return tag
  | some found => return { tag with name := some found.name, description := Text.trim found.rest }

/-- A template parameter's name, and its variance if a sign in front of the name gives it. -/
def signedName (variance : Variance) (name : String) : String × Variance :=
  match name.toList with
  | '+' :: rest => (String.ofList rest, .covariant)
  | '-' :: rest => (String.ofList rest, .contravariant)
  | _ => (name, variance)

/-- A tag with a name and perhaps a bound. -/
def templateTag (source : TagSource) (variance : Variance) (body : String) :
    Except Malformed TemplateTag := do
  let (word, rest) := TagBody.firstWord body
  if word == "" then throw .missingTemplate
  let (name, variance) := signedName variance word
  if !Text.isIdentifier name.toList then throw (.invalidTemplate name)
  let (connective, bound) := TagBody.firstWord rest
  if ["of", "as"].contains (Text.lower connective) && Text.trim bound != "" then
    let (boundText, _) ← splitType bound
    return { name, boundText := some boundText, variance, source }
  return { name, variance, source }

/-- A tag with a type and a parameter. -/
def assertionTag (kind : AssertionKind) (body : String) : Except Malformed AssertionTag := do
  let (negated, body) := match body.toList with
    | '!' :: rest => (true, String.ofList rest)
    | _ => (false, body)
  let (typeText, rest) ← splitType body
  match TagBody.parameterName? rest with
  | none => throw .missingAsserted
  | some found => return { kind, parameter := found.name, typeText, negated }

/-! ### Precedence -/

/-- The new tag stays: there is none yet, or it is addressed to a tool of higher rank. -/
def prevails (new : TagSource) (old : Option TagSource) : Bool :=
  old.all fun source => source.rank < new.rank

/-- Keeps the tag unless one of a higher rank is there. -/
def putTag (tags : Table TypedTag) (name : String) (tag : TypedTag) : Table TypedTag :=
  if prevails tag.source ((tags.get? name).map TypedTag.source) then tags.insert name tag else tags

/-- Replaces the first tag about the same thing if the new one prevails, or adds the new one. -/
def mergeTag {α κ : Type} [BEq κ] (key : α → κ) (source : α → TagSource) (tag : α) :
    List α → List α
  | [] => [tag]
  | old :: tags =>
    if key old == key tag then
      (if prevails (source tag) (some (source old)) then tag else old) :: tags
    else old :: mergeTag key source tag tags

/-! ### Whole docblocks -/

/-- A tag without a text. -/
def setMark (block : Docblock) (name : String) : Option Docblock :=
  match name with
  | "pure" => some { block with isPure := true }
  | "mutation-free" => some { block with isMutationFree := true }
  | "external-mutation-free" => some { block with isMutationFree := true }
  | "readonly" => some { block with isReadonly := true }
  | "immutable" => some { block with isReadonly := true }
  | "internal" => some { block with isInternal := true }
  | "final" => some { block with isFinal := true }
  | "no-named-arguments" => some { block with noNamedArguments := true }
  | "ignore-nullable-return" => some { block with ignoreNullableReturn := true }
  | "ignore-falsable-return" => some { block with ignoreFalsableReturn := true }
  | "impure" => some { block with isPure := false }
  | "not-deprecated" => some { block with isDeprecated := false }
  | "inheritdoc" => some { block with inheritsDoc := true }
  | _ => none

/-- Adds a template parameter. -/
def addTemplate (block : Docblock) (found : TemplateTag) : Docblock :=
  { block with templates := mergeTag TemplateTag.name TemplateTag.source found block.templates }

/-- Adds an assertion. -/
def addAssertion (block : Docblock) (found : AssertionTag) : Docblock :=
  { block with assertions := block.assertions ++ [found] }

/-- Takes up a tag, given its plain name and the tool that it is addressed to. -/
def applyTag (block : Docblock) (tag : PlainTag) (name : String) (source : TagSource) :
    Except Malformed Docblock := do
  let body := tag.body
  match name with
  | "param" =>
    match ← parameterTag source body with
    | none => return block
    | some found => return { block with params := putTag block.params (found.name.getD "") found }
  | "param-out" =>
    match ← parameterTag source body with
    | none => return block
    | some found =>
      return { block with paramOuts := putTag block.paramOuts (found.name.getD "") found }
  | "return" =>
    let found ← typedTag source body
    if prevails source (block.result.map TypedTag.source) then
      return { block with result := some found }
    return block
  | "var" =>
    let found ← varTag source body
    return { block with vars := mergeTag TypedTag.name TypedTag.source found block.vars }
  | "throws" => return { block with throws := block.throws ++ [← typedTag source body] }
  | "template" => return block.addTemplate (← templateTag source .invariant body)
  | "template-covariant" => return block.addTemplate (← templateTag source .covariant body)
  | "template-contravariant" => return block.addTemplate (← templateTag source .contravariant body)
  | "extends" | "template-extends" =>
    return { block with extended := block.extended ++ [← typedTag source body] }
  | "implements" | "template-implements" =>
    return { block with implemented := block.implemented ++ [← typedTag source body] }
  | "use" | "template-use" => return { block with used := block.used ++ [← typedTag source body] }
  | "assert" => return block.addAssertion (← assertionTag .always body)
  | "assert-if-true" => return block.addAssertion (← assertionTag .ifTrue body)
  | "assert-if-false" => return block.addAssertion (← assertionTag .ifFalse body)
  | "deprecated" =>
    return { block with
      isDeprecated := true
      deprecationMessage := if body == "" then none else some body }
  | "since" =>
    return { block with since := if body == "" then none else some (TagBody.firstWord body).1 }
  | _ =>
    match setMark block name with
    | some marked => return marked
    | none => return { block with others := block.others ++ [tag] }

/-- Takes up a tag, or keeps it as it is with a warning if it is malformed. -/
def takeTag (block : Docblock) (tag : PlainTag) : Docblock :=
  let (name, source) := plainName tag.name
  match applyTag block tag name source with
  | .ok changed => changed
  | .error flaw =>
    { block with
      others := block.others ++ [tag]
      warnings := block.warnings ++ ["@" ++ tag.name ++ ": " ++ flaw.message] }

/-- Reads a comment. -/
def parse (text : Option String) : Docblock :=
  match text with
  | none => {}
  | some "" => {}
  | some text =>
    let (prose, tags) := splitTags (commentLines text)
    tags.foldl takeTag (ofProse prose)

end StubCatalog.Docblock
