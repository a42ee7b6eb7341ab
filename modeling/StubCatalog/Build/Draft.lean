import StubCatalog.Build.Signature
import StubCatalog.Catalog.Basic

/-! # Collecting declarations

A function that is declared again gets a further signature; of a class or constant only the first
declaration stays, and the others are reported. Constants whose value is another constant are noted.
-/

namespace StubCatalog.Build

/-- Where a constant is kept. -/
inductive ConstantSite where
  | global (key : String)
  | member (owner name : String)
  deriving DecidableEq, Repr, Inhabited

/-- What the value of a constant refers to. -/
inductive Reference where
  | constant (name : String)
  | classConstant (owner member : String)
  deriving DecidableEq, Repr, Inhabited

/-- The reference that a value comes down to. -/
def Reference.ofEvaluation? : Evaluation → Option Reference
  | .constant name => some (.constant name)
  | .classConstant owner member => some (.classConstant owner member)
  | _ => none

/-- A reference with what is needed to look it up. -/
structure OpenReference where
  reference : Reference
  context : NamingContext
  owner : Option String
  hasDeclaredType : Bool
  deriving Inhabited

/-- A constant whose value is open. -/
structure Pending where
  site : ConstantSite
  target : OpenReference
  deriving Inhabited

/-- What is collected from files. -/
structure Draft where
  classes : Table ClassEntry := {}
  functions : Table FunctionEntry := {}
  constants : Table ConstantEntry := {}
  pending : List Pending := []
  deriving Inhabited

/-- Reports a later declaration. -/
def reportDuplicate (site : Site) : Checked Unit :=
  site.report .duplicateDeclaration
    (site.symbol ++ " is already declared; keeping the first declaration")

/-- Adds a function, or a signature to the function of its name. -/
def Draft.addFunction (settings : Settings) (draft : Draft) (function : Stub.Function) :
    Checked Draft := do
  let name := function.context.qualify function.name
  let (signature, block) ← readSignature settings name {} function
  let key := Name.symbolKey name
  let entry : FunctionEntry := match draft.functions.get? key with
    | some existing => { existing with signatures := existing.signatures ++ [signature] }
    | none =>
      { declaration :=
          { name := function.name
            qualifiedName := name
            kind := .function
            isDeprecated := block.isDeprecated
            location := some function.location }
        signatures := [signature] }
  return { draft with functions := draft.functions.insert key entry }

/-! ### Constants -/

/-- The type of a constant whose value is not known. -/
def unknownValueType : TypeExpr := .unknown "value not statically known"

/-- The type of a constant by its value. -/
def inferredType : Evaluation → TypeExpr
  | .literal value => value.type
  | _ => unknownValueType

/-- The constant that is declared, and the reference that its value is. -/
def readConstant (settings : Settings) (kind : DeclarationKind) (owner : Option String)
    (scope : Scope) (symbol : String) (constant : Stub.Constant) :
    Checked (ConstantEntry × Option OpenReference) := do
  let site : Site := ⟨symbol, constant.location⟩
  let block ← readDocblock site constant.docblock
  let declared ← declaredType site scope (block.varType none) constant.typeText
  let evaluation ← evaluate settings constant.valueText
  let entry : ConstantEntry :=
    { declaration :=
        { name := constant.name
          qualifiedName := symbol
          kind
          visibility := .ofModifiers constant.modifiers
          isFinal := constant.modifiers.contains "final"
          isDeprecated := block.isDeprecated
          location := some constant.location }
      owner
      type := declared.getD (inferredType evaluation)
      value := knownValue evaluation
      isValueKnown := evaluation.isKnown
      expression := constant.valueText }
  let target := (Reference.ofEvaluation? evaluation).map fun reference =>
    { reference, context := constant.context, owner, hasDeclaredType := declared.isSome }
  return (entry, target)

/-- Adds a constant unless its name is taken. -/
def Draft.addConstant (settings : Settings) (draft : Draft) (constant : Stub.Constant) :
    Checked Draft := do
  let name := constant.context.qualify constant.name
  let key := Name.constantKey name
  if draft.constants.contains key then
    reportDuplicate ⟨name, constant.location⟩
    return draft
  let (entry, target) ←
    readConstant settings .constant none { context := some constant.context } name constant
  return { draft with
    constants := draft.constants.insert key entry
    pending := draft.pending ++ (target.map (⟨.global key, ·⟩)).toList }

/-! ### Members -/

/-- The property that a constructor's parameter declares. -/
def promotedProperty (owner : String) (location : Location) (param : Parameter) : PropertyEntry :=
  { declaration :=
      { name := param.name
        qualifiedName := owner ++ "::$" ++ param.name
        kind := .property
        location := some location }
    owner
    declaredIn := owner
    type := param.type
    nativeType := param.nativeType }

/-- Takes up a method; one that is declared again gets a further signature. -/
def addMethod (settings : Settings) (outer : Table (Option TypeExpr)) (entry : ClassEntry)
    (method : Stub.Function) : Checked ClassEntry := do
  let name := entry.name ++ "::" ++ method.name
  let (signature, block) ← readSignature settings name outer method
  let key := Text.lower method.name
  match entry.methods.get? key with
  | some existing =>
    let changed := { existing with signatures := existing.signatures ++ [signature] }
    return { entry with methods := entry.methods.insert key changed }
  | none =>
    let found : MethodEntry :=
      { declaration :=
          { name := method.name
            qualifiedName := name
            kind := .method
            visibility := .ofModifiers method.modifiers
            isStatic := method.modifiers.contains "static"
            isAbstract := method.modifiers.contains "abstract" || entry.kind == .interface
            isFinal := method.modifiers.contains "final"
            isDeprecated := block.isDeprecated
            location := some method.location }
        owner := entry.name
        declaredIn := entry.name
        signatures := [signature] }
    let promoted := if key == "__construct" then signature.parameters.filter (·.isPromoted) else []
    return { entry with
      methods := entry.methods.insert key found
      properties := promoted.foldl (fun properties p =>
        properties.insertNew p.name (promotedProperty entry.name method.location p))
        entry.properties }

/-- Adds a declared property to a class. -/
def addProperty (settings : Settings) (scope : Scope) (entry : ClassEntry)
    (property : Stub.Property) : Checked ClassEntry := do
  let name := entry.name ++ "::$" ++ property.name
  let site : Site := ⟨name, property.location⟩
  let block ← readDocblock site property.docblock
  let hint ← nativeType site scope property.typeText
  let documented ← tagType site scope (block.varType (some property.name))
  checkConflict settings site ("property $" ++ property.name) documented hint
  let default ← evaluate settings property.defaultText
  let found : PropertyEntry :=
    { declaration :=
        { name := property.name
          qualifiedName := name
          kind := .property
          visibility := .ofModifiers property.modifiers
          isStatic := property.modifiers.contains "static"
          isReadonly := property.modifiers.contains "readonly" || block.isReadonly
            || entry.declaration.isReadonly
          isDeprecated := block.isDeprecated
          location := some property.location }
      owner := entry.name
      declaredIn := entry.name
      type := documented.getD (hint.getD .mixed)
      nativeType := hint
      hasDefault := property.defaultText.isSome
      default := knownValue default }
  return { entry with properties := entry.properties.insert property.name found }

/-- A class with the constants of it that are open. -/
structure ClassDraft where
  entry : ClassEntry
  pending : List Pending := []

/-- Adds a constant to a class unless its name is taken. -/
def addClassConstant (settings : Settings) (scope : Scope) (draft : ClassDraft)
    (constant : Stub.Constant) : Checked ClassDraft := do
  let entry := draft.entry
  let name := entry.name ++ "::" ++ constant.name
  if entry.constants.contains constant.name then
    reportDuplicate ⟨name, constant.location⟩
    return draft
  let (found, target) ←
    readConstant settings .classConstant (some entry.name) scope name constant
  return {
    entry := { entry with constants := entry.constants.insert constant.name found }
    pending := draft.pending ++ (target.map (⟨.member entry.key constant.name, ·⟩)).toList }

/-- Adds a case to an enumeration. -/
def addEnumCase (settings : Settings) (entry : ClassEntry) (case : Stub.EnumCase) :
    Checked ClassEntry := do
  let name := entry.name ++ "::" ++ case.name
  let site : Site := ⟨name, case.location⟩
  let block ← readDocblock site case.docblock
  let evaluation ← evaluate settings case.valueText
  if entry.constants.contains case.name then
    reportDuplicate site
    return entry
  let found : ConstantEntry :=
    { declaration :=
        { name := case.name
          qualifiedName := name
          kind := .enumCase
          isDeprecated := block.isDeprecated
          location := some case.location }
      owner := some entry.name
      type := .named entry.name
      value := knownValue evaluation
      isValueKnown := evaluation.isKnown
      expression := case.valueText }
  return { entry with
    constants := entry.constants.insert case.name found
    cases := entry.cases ++ [case.name] }

/-! ### Classes -/

/-- Takes the step for each member, from left to right. -/
def foldChecked {α β : Type} (f : β → α → Checked β) (start : β) : List α → Checked β
  | [] => pure start
  | x :: xs => do foldChecked f (← f start x) xs

/-- The class in an inheritance tag, with its arguments. -/
def ancestorOf? : TypeExpr → Option (String × List TypeExpr)
  | .generic name args => if Keyword.isGeneric name then none else some (Name.symbolKey name, args)
  | _ => none

/-- The type arguments that a class gives for the classes above it. -/
def readAncestorArguments (site : Site) (scope : Scope) (tags : List TypedTag) :
    Checked (Table (List TypeExpr)) := do
  let types ← Checked.forAll (fun tag => documentedType site scope tag.typeText) tags
  return Table.ofList ((types.filterMap id).filterMap ancestorOf?)

/-- The class that is declared, with its members. -/
def readClass (settings : Settings) (name : String) (source : Stub.ClassLike) :
    Checked ClassDraft := do
  let site : Site := ⟨name, source.location⟩
  let context := source.context
  let block ← readDocblock site source.docblock
  let (templates, scope) ← readTemplates site { context := some context } block.templates
  let isInterface := source.kind == .interface
  let backingType ← nativeType site scope source.backingText
  let useBlocks ← Checked.forAll (fun use => readDocblock site use.docblock) source.traitUses
  let ancestorArguments ← readAncestorArguments site scope
    (block.extended ++ block.implemented ++ block.used ++ useBlocks.flatMap (·.used))
  let entry : ClassEntry :=
    { declaration :=
        { name := source.name
          qualifiedName := name
          kind := source.kind.declarationKind
          isAbstract := source.modifiers.contains "abstract" || isInterface
          isFinal := source.modifiers.contains "final" || block.isFinal
          isReadonly := source.modifiers.contains "readonly" || block.isReadonly
          isDeprecated := block.isDeprecated
          location := some source.location }
      kind := source.kind
      parent := if isInterface then none else source.extended.head?.map context.resolveClass
      interfaces :=
        (if isInterface then source.extended else source.implemented).map context.resolveClass
      traits := (source.traitUses.flatMap (·.names)).map context.resolveClass
      templates
      ancestorArguments
      backingType }
  let outer := Table.ofList (templates.map fun t => (t.name, t.bound))
  let entry ← foldChecked (addMethod settings outer) entry source.methods
  let entry ← foldChecked (addProperty settings scope) entry source.properties
  let draft ← foldChecked (addClassConstant settings scope) { entry } source.constants
  let entry ← foldChecked (addEnumCase settings) draft.entry source.cases
  return { draft with entry }

/-- Adds a class unless its name is taken. -/
def Draft.addClass (settings : Settings) (draft : Draft) (source : Stub.ClassLike) :
    Checked Draft := do
  let name := source.context.qualify source.name
  let key := Name.symbolKey name
  if draft.classes.contains key then
    reportDuplicate ⟨name, source.location⟩
    return draft
  let found ← readClass settings name source
  return { draft with
    classes := draft.classes.insert key found.entry
    pending := draft.pending ++ found.pending }

/-! ### Files -/

/-- The syntax errors of a file. -/
def syntaxDiagnostics (file : Stub.File) : List Diagnostic :=
  file.problems.map fun problem =>
    { kind := .syntaxError
      message := problem.message
      file := some file.path
      line := some problem.line }

/-- A file with syntax errors is not taken up. -/
def isSkipped (settings : Settings) (file : Stub.File) : Bool :=
  !file.problems.isEmpty && settings.skipInvalidFiles

/-- Adds what a file declares. -/
def Draft.addFile (settings : Settings) (draft : Draft) (file : Stub.File) : Checked Draft := do
  Checked.report (syntaxDiagnostics file)
  if isSkipped settings file then return draft
  let draft ← foldChecked (Draft.addConstant settings) draft file.constants
  let draft ← foldChecked (Draft.addFunction settings) draft file.functions
  foldChecked (Draft.addClass settings) draft file.classes

end StubCatalog.Build
