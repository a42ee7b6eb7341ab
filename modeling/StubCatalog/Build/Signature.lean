import StubCatalog.Build.Checked
import StubCatalog.Docblock.Parser
import StubCatalog.Evaluation
import StubCatalog.Settings.Basic
import StubCatalog.Signature
import StubCatalog.Stub.Basic
import StubCatalog.TypeExpr.Parser
import StubCatalog.TypeExpr.Written

/-! # Signatures from declarations

A documented type goes before the declared one; a type that cannot be read is reported and left out
or marked as unknown. -/

namespace StubCatalog.Build

/-- What a diagnostic is about, and where it stands. -/
structure Site where
  symbol : String
  location : Location

/-- Reports something about a symbol. -/
def Site.report (site : Site) (kind : DiagnosticKind) (message : String) : Checked Unit :=
  Checked.report [{
    kind
    message
    file := some site.location.file
    line := some site.location.line
    symbol := some site.symbol }]

/-! ### Parts of declarations -/

/-- The documentation of a symbol; malformed tags are reported. -/
def readDocblock (site : Site) (text : Option String) : Checked Docblock := do
  let block := Docblock.parse text
  Checked.each (site.report .malformedTag) block.warnings
  return block

/-- The type, or what is wrong with the text. -/
def parseType (scope : Scope) (text : String) : Checked (Except String TypeExpr) :=
  match TypeExpr.parse text scope with
  | .ok t => pure (.ok t)
  | .error (.numeral e) => .ofExcept (.error (.numeral e))
  | .error e => pure (.error e.message)

/-- Reads a declared type; a malformed one is unknown. -/
def nativeType (site : Site) (scope : Scope) : Option String → Checked (Option TypeExpr)
  | none => pure none
  | some text => do
    match ← parseType scope text with
    | .ok t => return some t
    | .error message =>
      site.report .unknownType message
      return some (.unknown message)

/-- Reads a documented type; a malformed one is left out. -/
def documentedType (site : Site) (scope : Scope) (text : String) : Checked (Option TypeExpr) := do
  match ← parseType scope text with
  | .ok t => return some t
  | .error message =>
    site.report .malformedTag message
    return none

/-- Reads a documented type, if there is one. -/
def tagType (site : Site) (scope : Scope) : Option String → Checked (Option TypeExpr)
  | none => pure none
  | some text => documentedType site scope text

/-- Reads the documented type of a constant, or else its declared one. -/
def declaredType (site : Site) (scope : Scope) (documented declared : Option String) :
    Checked (Option TypeExpr) := do
  match ← tagType site scope documented with
  | some t => return some t
  | none => nativeType site scope declared

/-- Template parameters with their bounds, and the scope with all of them. -/
def readTemplates (site : Site) (scope : Scope) :
    List TemplateTag → Checked (List TemplateParameter × Scope)
  | [] => pure ([], scope)
  | tag :: tags => do
    let bound ← tagType site scope tag.boundText
    let inner := scope.withTemplates (Table.ofList [(tag.name, bound)])
    let (others, final) ← readTemplates site inner tags
    return ({ name := tag.name, bound, variance := tag.variance } :: others, final)

/-- Reports a documented type that has no value in common with the declared one. -/
def checkConflict (settings : Settings) (site : Site) (what : String) :
    Option TypeExpr → Option TypeExpr → Checked Unit
  | some documented, some hint => do
    if !settings.reportAnnotationConflicts || documented.isUnknown || hint.isUnknown
        || documented.isNever then
      return
    let widened := documented.conditionalBranches.eraseTemplates
    let overlap ← .ofExcept ((TypeExpr.canOverlap widened hint).mapError .compare)
    if !overlap then
      let documentedText ← .ofExcept (documented.written.mapError .numeral)
      let hintText ← .ofExcept (hint.written.mapError .numeral)
      site.report .annotationConflict
        (what ++ ": docblock type " ++ documentedText ++ " contradicts native type " ++ hintText)
  | _, _ => pure ()

/-- What a value comes down to. -/
def evaluate (settings : Settings) (text : Option String) : Checked Evaluation :=
  .ofExcept ((Evaluation.ofText text settings.unknownMarker).mapError .numeral)

/-- The value, or null if it is not known. -/
def knownValue : Evaluation → Scalar
  | .literal value => value
  | _ => .null

/-! ### Parameters -/

/-- The type or null. -/
def orNull (t : TypeExpr) : TypeExpr := if t.isNullable then t else .nullableOf t

/-- Reads a parameter. A default of null makes its type nullable. -/
def readParameter (settings : Settings) (site : Site) (block : Docblock) (scope : Scope)
    (param : Stub.Parameter) : Checked Parameter := do
  let declared ← nativeType site scope param.typeText
  let default ← evaluate settings param.defaultText
  let hasDefault := param.defaultText.isSome
  let isNullDefault := hasDefault && default == .literal .null
  let hint := if isNullDefault then declared.map orNull else declared
  let documented ← tagType site scope ((block.params.get? param.name).map (·.typeText))
  checkConflict settings site ("parameter $" ++ param.name) documented hint
  let outType ← tagType site scope ((block.paramOuts.get? param.name).map (·.typeText))
  return {
    name := param.name
    type := match documented with
      | some t => if isNullDefault && !t.isUnknown then orNull t else t
      | none => hint.getD .mixed
    nativeType := hint
    outType
    hasDefault
    default := knownValue default
    defaultExpression := param.defaultText
    isVariadic := param.variadic
    isByReference := param.byReference
    isPromoted := param.promoted }

/-- A conditional can ask about the subject: the object itself, a parameter or a template
parameter. -/
def isKnownSubject (parameters : List String) (scope : Scope) (subject : String) : Bool :=
  subject == "$this" || match TypeExpr.subjectParameter? subject with
    | some name => parameters.contains name
    | none => scope.templates.contains subject

/-- Reports conditionals that ask about nothing that is declared. -/
def checkSubjects (site : Site) (parameters : List String) (scope : Scope) (t : TypeExpr) :
    Checked Unit :=
  Checked.each (fun node =>
    match node with
    | .conditional subject .. =>
      if isKnownSubject parameters scope subject.text then pure ()
      else
        site.report .unresolvedConditionalSubject
          ("conditional type tests unknown subject " ++ subject.text)
    | _ => pure ()) t.conditionals

/-- Reads an assertion; one about an unknown parameter is reported and left out. -/
def readAssertion (site : Site) (scope : Scope) (parameters : List String) (tag : AssertionTag) :
    Checked (Option Assertion) := do
  if parameters.contains tag.parameter then
    let type ← documentedType site scope tag.typeText
    return type.map fun t =>
      { kind := tag.kind, parameter := tag.parameter, type := t, negated := tag.negated }
  else
    site.report .unknownParameter ("assertion on unknown parameter $" ++ tag.parameter)
    return none

/-- Reads the signature of a function or method, where `outer` are the template parameters of the
enclosing class. -/
def readSignature (settings : Settings) (symbol : String) (outer : Table (Option TypeExpr))
    (function : Stub.Function) : Checked (Signature × Docblock) := do
  let site : Site := ⟨symbol, function.location⟩
  let block ← readDocblock site function.docblock
  let (templates, scope) ←
    readTemplates site { context := some function.context, templates := outer } block.templates
  let parameters ← Checked.forAll (readParameter settings site block scope) function.parameters
  let names := parameters.map (·.name)
  Checked.each (fun name => site.report .unknownParameter
    ("docblock names unknown parameter $" ++ name))
    ((block.params.keys ++ block.paramOuts.keys).filter (!names.contains ·))
  let hint ← nativeType site scope function.resultText
  let documented ← tagType site scope (block.result.map (·.typeText))
  checkConflict settings site "return" documented hint
  let returnType := documented.getD (hint.getD .mixed)
  checkSubjects site names scope returnType
  Checked.each (fun p => checkSubjects site names scope p.type) parameters
  let throws ← Checked.forAll (fun tag => documentedType site scope tag.typeText) block.throws
  let assertions ← Checked.forAll (readAssertion site scope names) block.assertions
  return ({
    parameters
    returnType
    nativeReturnType := hint
    templates
    throws := throws.filterMap id
    assertions := assertions.filterMap id
    returnsByReference := function.returnsByReference
    isPure := block.isPure
    isMutationFree := block.isMutationFree || block.isPure
    isDeprecated := block.isDeprecated
    noNamedArguments := block.noNamedArguments
    ignoreNullableReturn := block.ignoreNullableReturn
    ignoreFalsableReturn := block.ignoreFalsableReturn
    location := some function.location }, block)

end StubCatalog.Build
