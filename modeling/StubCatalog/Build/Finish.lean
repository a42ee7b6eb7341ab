import StubCatalog.Build.Composition
import StubCatalog.Build.Folding

/-! # Building a catalog

All files are collected, classes linked, the members of traits taken in, references between
constants followed, and declarations listed under their namespaces. -/

namespace StubCatalog.Build

/-! ### Namespaces -/

/-- Lists a declaration under its namespace. -/
def listUnder (put : Namespace → String → Declaration → Namespace) (index : Table Namespace)
    (declaration : Declaration) : Table Namespace :=
  let (space, short) := Name.split declaration.qualifiedName
  let key := Text.lower space
  let here := (index.get? key).getD { name := space }
  index.insert key (put here short declaration)

/-- Lists a class. -/
def putClass (n : Namespace) (short : String) (d : Declaration) : Namespace :=
  { n with classes := n.classes.insert (Text.lower short) d }

/-- Lists a function. -/
def putFunction (n : Namespace) (short : String) (d : Declaration) : Namespace :=
  { n with functions := n.functions.insert (Text.lower short) d }

/-- Lists a constant. -/
def putConstant (n : Namespace) (short : String) (d : Declaration) : Namespace :=
  { n with constants := n.constants.insert short d }

/-- What is declared, by namespaces. -/
def indexNamespaces (classes : Table ClassEntry) (functions : Table FunctionEntry)
    (constants : Table ConstantEntry) : Table Namespace :=
  let start : Table Namespace := Table.ofList [("", { name := "" })]
  let withClasses := (classes.values.map (·.declaration)).foldl (listUnder putClass) start
  let withFunctions :=
    (functions.values.map (·.declaration)).foldl (listUnder putFunction) withClasses
  (constants.values.map (·.declaration)).foldl (listUnder putConstant) withFunctions

/-! ### Catalogs -/

/-- Looks up the classes above each class, breaks cycles and takes in the members of traits. -/
def link (settings : Settings) (classes : Classes) : Classes × List Diagnostic :=
  let (resolved, unresolved) := resolveAll settings classes
  let (acyclic, cycles) := breakCycles resolved
  (composeAll acyclic, unresolved ++ cycles)

/-- The catalog of what has been collected; `found` are the diagnostics so far. -/
def Draft.finish (settings : Settings) (draft : Draft) (found : List Diagnostic) : Catalog :=
  let (classes, problems) := link settings draft.classes
  let folded := Constants.settleAll ⟨classes, draft.constants⟩ draft.pending
  { classes := folded.classes
    functions := draft.functions
    constants := folded.globals
    namespaces := indexNamespaces folded.classes draft.functions folded.globals
    diagnostics := found ++ problems }

end Build

/-- The catalog of a list of files; `earlier` are diagnostics from before. -/
def Catalog.build (settings : Settings) (files : List Stub.File) (earlier : List Diagnostic := []) :
    Except BuildError Catalog := do
  let (draft, found) ← (Build.foldChecked (Build.Draft.addFile settings) {} files).run
  return draft.finish settings (earlier ++ found)

end StubCatalog
