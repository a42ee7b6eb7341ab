import StubCatalog.Catalog.Basic
import StubCatalog.Graph
import StubCatalog.Settings.Basic
import StubCatalog.Text.Basic

/-! # Linking classes

The ancestors of all classes are looked up among the declared classes. What a class names on a
common cycle with it is removed, and each class on a cycle is reported once. -/

namespace StubCatalog.Build

/-- Classes by their keys. -/
abbrev Classes := Table ClassEntry

/-- A diagnostic about a class. -/
def classDiagnostic (kind : DiagnosticKind) (entry : ClassEntry) (message : String) : Diagnostic :=
  { kind
    message
    file := entry.declaration.location.map (·.file)
    line := entry.declaration.location.map (·.line)
    symbol := some entry.name }

/-- The interface that every enumeration has. -/
def impliedInterface? (classes : Classes) (entry : ClassEntry) : Option ClassEntry :=
  if entry.backingType.isSome then (classes.get? "backedenum").or (classes.get? "unitenum")
  else classes.get? "unitenum"

/-- Adds it to an enumeration. -/
def addImpliedInterface (classes : Classes) (entry : ClassEntry) : ClassEntry :=
  if entry.kind = .enumeration then
    match impliedInterface? classes entry with
    | some implied =>
      if (entry.interfaces.map Name.symbolKey).contains implied.key then entry
      else { entry with interfaces := entry.interfaces ++ [implied.name] }
    | none => entry
  else entry

/-! ### Looking up names -/

/-- The name of a class as it is declared. -/
def declaredName? (classes : Classes) (name : String) : Option String :=
  (classes.get? (Name.symbolKey name)).map (·.name)

/-- The declared ones of the names, each once. -/
def declaredNames (classes : Classes) (names : List String) : List String :=
  (names.filterMap (declaredName? classes)).eraseDups

/-- Reports the names that are not declared. -/
def undeclared (classes : Classes) (entry : ClassEntry) (relation : String) (names : List String) :
    List Diagnostic :=
  (names.filter fun name => (declaredName? classes name).isNone).map fun name =>
    classDiagnostic .unresolvedName entry (entry.name ++ relation ++ name)

/-- Keeps the classes above a class that are declared. -/
def resolveEdges (classes : Classes) (entry : ClassEntry) : ClassEntry :=
  { entry with
    parent := entry.parent.bind (declaredName? classes)
    interfaces := declaredNames classes entry.interfaces
    traits := declaredNames classes entry.traits }

/-- Reports those that are not. -/
def unresolvedEdges (classes : Classes) (entry : ClassEntry) : List Diagnostic :=
  undeclared classes entry " extends undeclared class " entry.parent.toList
    ++ undeclared classes entry " references undeclared interface " entry.interfaces
    ++ undeclared classes entry " uses undeclared trait " entry.traits

/-! ### Cycles -/

/-- The keys of the classes that a class names. -/
def ancestorKeys (entry : ClassEntry) : List String :=
  (entry.supertypes ++ entry.traits).map Name.symbolKey

/-- The keys of the classes that the class of a key names. -/
def successorKeys (classes : Classes) (key : String) : List String :=
  match classes.get? key with
  | some entry => ancestorKeys entry
  | none => []

/-- Puts a text into a list in order. -/
def insertSorted (text : String) : List String → List String
  | [] => [text]
  | first :: rest => if text < first then text :: first :: rest else first :: insertSorted text rest

/-- The texts in the order of their characters. -/
def sorted (texts : List String) : List String := texts.foldr insertSorted []

/-- A class with only those parents, interfaces and traits whose names are kept. -/
def keepEdges (keep : String → Bool) (entry : ClassEntry) : ClassEntry :=
  { entry with
    parent := entry.parent.filter keep
    interfaces := entry.interfaces.filter keep
    traits := entry.traits.filter keep }

/-- Whether a strongly connected component has a cycle: a single class has to lead to itself. -/
def isCycle (classes : Classes) : List String → Bool
  | [key] => (successorKeys classes key).contains key
  | _ => true

/-- The report of a class on a cycle of classes with the given names. -/
def cycleDiagnostic (names : List String) (entry : ClassEntry) : Diagnostic :=
  classDiagnostic .inheritanceCycle entry
    (entry.name ++ " is part of an inheritance cycle: " ++ Text.joined " -> " names)

/-- Removes what a class of a cycle names within the cycle, and reports the class. -/
def breakMember (members names : List String) (state : Classes × List Diagnostic) (key : String) :
    Classes × List Diagnostic :=
  match state.1.get? key with
  | some entry =>
    let kept := keepEdges (fun name => !members.contains (Name.symbolKey name)) entry
    (state.1.insert key kept, state.2 ++ [cycleDiagnostic names kept])
  | none => state

/-- The names of the classes of a component, in order. -/
def memberNames (classes : Classes) (component : List String) : List String :=
  sorted ((component.filterMap classes.get?).map (·.name))

/-- Breaks the cycles of a strongly connected component, its classes in the order of their keys. -/
def breakComponent (state : Classes × List Diagnostic) (component : List String) :
    Classes × List Diagnostic :=
  if isCycle state.1 component then
    (sorted component).foldl (breakMember component (memberNames state.1 component)) state
  else state

/-- Looks up the classes above each class. -/
def resolveAll (settings : Settings) (classes : Classes) : Classes × List Diagnostic :=
  let extended :=
    if settings.implicitEnumInterfaces then classes.map (addImpliedInterface classes) else classes
  (extended.map (resolveEdges extended), extended.values.flatMap (unresolvedEdges extended))

/-- Breaks all cycles, one strongly connected component after the other. -/
def breakCycles (classes : Classes) : Classes × List Diagnostic :=
  (Graph.components (sorted classes.keys) (successorKeys classes)).foldl breakComponent (classes, [])

end StubCatalog.Build
