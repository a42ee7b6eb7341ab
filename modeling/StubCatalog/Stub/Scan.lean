import StubCatalog.Stub.Basic
import StubCatalog.Stub.Clause
import StubCatalog.Stub.Import
import StubCatalog.SyntaxTree

/-! # Collecting the declarations of a file

A declaration with a part that could not be parsed is left out; of a class-like declaration only the
members concerned are, unless its header is broken. A namespace and an import are in effect for the
statements that follow them. -/

namespace StubCatalog.Stub

/-- A file with its bytes. -/
structure Source where
  path : String
  bytes : ByteArray

namespace Source

variable (src : Source)

/-! ### Parts of nodes -/

/-- The text of a node. -/
def text (node : SyntaxNode) : String := node.text src.bytes

/-- The text of a node's field. -/
def childText? (node : SyntaxNode) (field : String) : Option String :=
  node.childText? src.bytes field

/-- Where a node starts. -/
def location (node : SyntaxNode) : Location := node.location src.path src.bytes

/-- The comment in front of a node. -/
def docblock? (previous : Option SyntaxNode) : Option String :=
  match previous with
  | none => none
  | some node =>
    if node.kind == "comment" then
      let text := src.text node
      if "/**".toList.isPrefixOf text.toList then some text else none
    else none

/-- The text of a node in front of its body. -/
def header (node : SyntaxNode) : String :=
  match node.child? "body" with
  | some body => Text.slice src.bytes node.start body.start
  | none => src.text node

/-- The names below a node. -/
def names (node : SyntaxNode) : List String :=
  (node.namedChildren.filter fun child =>
    child.kind == "name" || child.kind == "qualified_name").map src.text

/-- The modifier that a node is. -/
def modifier? (node : SyntaxNode) : Option String :=
  match node.kind with
  | "visibility_modifier" => some (Text.lower (src.text node))
  | "static_modifier" => some "static"
  | "abstract_modifier" => some "abstract"
  | "final_modifier" => some "final"
  | "readonly_modifier" => some "readonly"
  | _ => none

/-- The modifiers of a declaration. -/
def modifiers (node : SyntaxNode) : List String := node.children.filterMap src.modifier?

/-! ### Functions -/

/-- The node is marked by reference. -/
def isByReference (node : SyntaxNode) : Bool :=
  (node.child? "reference_modifier").isSome
    || node.children.any fun child => child.kind == "reference_modifier" || child.kind == "&"

/-- The nodes that are parameters. -/
def parameterKinds : List String :=
  ["simple_parameter", "variadic_parameter", "property_promotion_parameter"]

/-- The name of a parameter. -/
def parameterName? (node : SyntaxNode) : Option String :=
  (src.childText? node "name").or
    ((node.namedChildren.find? (·.kind == "variable_name")).map src.text)

/-- The parameter that a node declares. -/
def parameter? (node : SyntaxNode) : Option Parameter :=
  if parameterKinds.contains node.kind then
    (src.parameterName? node).map fun name =>
      { name := String.ofList (name.toList.dropWhile (· == '$'))
        typeText := src.childText? node "type"
        defaultText := src.childText? node "default_value"
        variadic := node.kind == "variadic_parameter"
        byReference := isByReference node
        promoted := node.kind == "property_promotion_parameter" }
  else none

/-- The name that a node declares. -/
def declaredName? (node : SyntaxNode) : Option String :=
  (src.childText? node "name").filter (· != "")

/-- The function that a node declares. -/
def function? (ctx : NamingContext) (previous : Option SyntaxNode) (node : SyntaxNode) :
    Option Function :=
  (src.declaredName? node).map fun name =>
    { name
      context := ctx
      location := src.location node
      parameters := match node.child? "parameters" with
        | some list => list.namedChildren.filterMap src.parameter?
        | none => []
      resultText := src.childText? node "return_type"
      docblock := src.docblock? previous
      modifiers := src.modifiers node
      returnsByReference := node.children.any (·.kind == "reference_modifier") }

/-! ### Constants and properties -/

/-- The constants that a node declares. -/
def constants (ctx : NamingContext) (previous : Option SyntaxNode) (node : SyntaxNode) :
    List Constant :=
  node.namedChildren.filterMap fun element =>
    if element.kind == "const_element" then
      (Clause.constantElement? (src.text element)).map fun binding =>
        { name := binding.name
          context := ctx
          location := src.location element
          valueText := binding.value
          typeText := src.childText? node "type"
          docblock := src.docblock? previous
          modifiers := src.modifiers node }
    else none

/-- The constant that a call declares. -/
def define? (previous : Option SyntaxNode) (node : SyntaxNode) : Option Constant :=
  (Clause.define? (src.text node)).map fun binding =>
    { name := Name.bare binding.name
      context := { file := src.path }
      location := src.location node
      valueText := binding.value
      docblock := src.docblock? previous }

/-- The properties that a node declares. -/
def properties (previous : Option SyntaxNode) (node : SyntaxNode) : List Property :=
  node.namedChildren.filterMap fun element =>
    if element.kind == "property_element" then
      (Clause.propertyElement? (src.text element)).map fun binding =>
        { name := binding.name
          location := src.location element
          typeText := src.childText? node "type"
          defaultText := binding.value
          docblock := src.docblock? previous
          modifiers := src.modifiers node }
    else none

/-- The case that a node declares. -/
def enumCase? (previous : Option SyntaxNode) (node : SyntaxNode) : Option EnumCase :=
  (Clause.enumCase? (src.text node)).map fun binding =>
    { name := binding.name
      location := src.location node
      valueText := binding.value
      docblock := src.docblock? previous }

/-- The traits that a node uses. -/
def traitUse (previous : Option SyntaxNode) (node : SyntaxNode) : TraitUse :=
  let names := src.names node
  { names := if names.isEmpty then Clause.traitNames (src.text node) else names
    docblock := src.docblock? previous }

/-! ### Class-like declarations -/

/-- The kind of class that a node declares. -/
def classKind? (node : SyntaxNode) : Option ClassKind :=
  match node.kind with
  | "class_declaration" => some .plainClass
  | "interface_declaration" => some .interface
  | "trait_declaration" => some .trait
  | "enum_declaration" => some .enumeration
  | _ => none

/-- There is a fault outside of the body. -/
def isHeaderBroken (node : SyntaxNode) : Bool :=
  (node.children.eraseP (·.field == some "body")).any (·.hasError)

/-- Adds the member that a node declares. -/
def addMember (found : ClassLike) (previous : Option SyntaxNode) (node : SyntaxNode) : ClassLike :=
  if node.hasError then found
  else match node.kind with
    | "method_declaration" =>
      { found with
        methods := found.methods ++ (src.function? found.context previous node).toList }
    | "property_declaration" =>
      { found with properties := found.properties ++ src.properties previous node }
    | "const_declaration" =>
      { found with constants := found.constants ++ src.constants found.context previous node }
    | "enum_case" => { found with cases := found.cases ++ (src.enumCase? previous node).toList }
    | "use_declaration" =>
      { found with traitUses := found.traitUses ++ [src.traitUse previous node] }
    | _ => found

/-- Adds all members; `previous` is the named node in front of the first one. -/
def addMembers (found : ClassLike) (previous : Option SyntaxNode) : List SyntaxNode → ClassLike
  | [] => found
  | node :: nodes => addMembers (src.addMember found previous node) (some node) nodes

/-- The names in the clauses of this kind. -/
def clauseNames (kind : String) (node : SyntaxNode) : List String :=
  (node.namedChildren.filter (·.kind == kind)).flatMap src.names

/-- The class that a node declares. -/
def classLike? (kind : ClassKind) (ctx : NamingContext) (previous : Option SyntaxNode)
    (node : SyntaxNode) : Option ClassLike :=
  match src.declaredName? node with
  | none => none
  | some name =>
    if isHeaderBroken node then none
    else
      let header := src.header node
      let found : ClassLike :=
        { kind
          name
          context := ctx
          location := src.location node
          docblock := src.docblock? previous
          modifiers := Clause.modifiers header
          extended := src.clauseNames "base_clause" node
          implemented := src.clauseNames "class_interface_clause" node
          backingText := if kind = .enumeration then Clause.backingType? header else none }
      some (match node.child? "body" with
        | some body => src.addMembers found none body.namedChildren
        | none => found)

/-! ### Statements -/

/-- The context that a namespace opens. -/
def namespaceContext (node : SyntaxNode) : NamingContext :=
  let name := (src.childText? node "name").getD ""
  { file := src.path
    space := String.ofList (Text.trimBy (fun c => c == '\\' || c == ' ') name.toList) }

/-- What a statement declares. -/
def simpleStatement (ctx : NamingContext) (previous : Option SyntaxNode) (node : SyntaxNode) :
    File :=
  let nothing : File := { path := src.path }
  match classKind? node with
  | some kind => { nothing with classes := (src.classLike? kind ctx previous node).toList }
  | none =>
    if node.hasError then nothing
    else match node.kind with
      | "function_definition" =>
        { nothing with functions := (src.function? ctx previous node).toList }
      | "const_declaration" => { nothing with constants := src.constants ctx previous node }
      | "expression_statement" => { nothing with constants := (src.define? previous node).toList }
      | _ => nothing

/-- The statement has no statements inside. -/
def isSimple (node : SyntaxNode) : Bool :=
  (classKind? node).isSome
    || ["comment", "php_tag", "text", "text_interpolation", "namespace_use_declaration",
      "function_definition", "const_declaration", "expression_statement"].contains node.kind

/-- The context behind a statement: a namespace without a body and an import change it. -/
def contextAfter (ctx : NamingContext) (node : SyntaxNode) : NamingContext :=
  match node.kind with
  | "namespace_definition" =>
    if (node.child? "body").isNone then src.namespaceContext node else ctx
  | "namespace_use_declaration" =>
    if node.hasError then ctx else Import.addAll ctx (Import.parse (src.text node))
  | _ => ctx

/-- The declarations of a list of statements and inside them; `previous` is the named node in front
of the first one. -/
def declarations (ctx : NamingContext) (previous : Option SyntaxNode) (nodes : List SyntaxNode) :
    File :=
  match nodes with
  | [] => { path := src.path }
  | node :: rest =>
    let inside : File :=
      if isSimple node then src.simpleStatement ctx previous node
      else if node.kind == "namespace_definition" then
        match _h : node.child? "body" with
        | none => { path := src.path }
        | some body => declarations (src.namespaceContext node) none body.namedChildren
      else declarations ctx none node.namedChildren
    inside.append (declarations (src.contextAfter ctx node) (some node) rest)
termination_by sizeOf nodes
decreasing_by
  all_goals simp only [List.cons.sizeOf_spec]
  · have := SyntaxNode.sizeOf_child_lt _h
    have := SyntaxNode.sizeOf_namedChildren_lt body
    omega
  · have := SyntaxNode.sizeOf_namedChildren_lt node
    omega
  · omega

/-- The syntax error at a node. -/
def problem (node : SyntaxNode) : SyntaxProblem :=
  { line := node.row src.bytes + 1
    column := node.column src.bytes + 1
    message := if node.missing then "missing " ++ node.kind else "unexpected input" }

/-- The syntax errors of a file. -/
def problems (root : SyntaxNode) : List SyntaxProblem :=
  if root.hasError then
    match root.faults with
    | [] => [src.problem root]
    | faults => faults.map src.problem
  else []

/-- What a file declares. -/
def scan (root : SyntaxNode) : File :=
  { declarations src { file := src.path } none root.namedChildren with
    problems := src.problems root }

end Source

end StubCatalog.Stub
