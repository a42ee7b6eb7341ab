import StubCatalog.CommandLine.Command
import StubCatalog.CommandLine.Report
import StubCatalog.Discovery
import StubCatalog.Settings.Reading
import StubCatalog.Snapshot.Document

/-! # Running a command line

A run depends on its surroundings alone. It ends with a code, with what it prints and with the file
that it writes: code 0 for success, 1 for a failure, and 2 for a command line that cannot be
understood. -/

namespace StubCatalog.CommandLine

open Terminal (Printed)

structure Surroundings where
  environment : Environment := {}
  files : FileSystem Stub.Content := {}
  directory : Path := Path.root

structure Outcome where
  exitCode : Nat := 0
  output : String := ""
  errors : String := ""
  written : Option (Path × String) := none
  deriving DecidableEq, Repr, Inhabited

namespace Outcome

def ofUsageError (e : UsageError) : Outcome :=
  { exitCode := 2, errors := "Error: " ++ e.message ++ "\n" }

def failure : Outcome := { exitCode := 1 }

/-- A run that prints its results; text that cannot be printed makes it fail. -/
def ofPrinted (items : List Printed) : Outcome :=
  let (text, complete) := Terminal.screen items
  { exitCode := if complete then 0 else 1, output := text }

def ofFailure (items : List Printed) : Outcome :=
  { exitCode := 1, errors := (Terminal.screen items).1 }

end Outcome

def logLevels : List String :=
  ["CRITICAL", "FATAL", "ERROR", "WARN", "WARNING", "INFO", "DEBUG", "NOTSET"]

/-- The capital of a letter, as far as it is an ASCII letter: the dotless i and the long s have such
capitals too. -/
def capital (c : Char) : Char :=
  match c with
  | 'ı' => 'I'
  | 'ſ' => 'S'
  | c => c.toUpper

def isLogLevel (text : String) : Bool :=
  logLevels.contains (String.ofList (text.toList.map capital))

namespace Surroundings

variable (s : Surroundings)

def build (path : Path) : Except Outcome BuildResult :=
  match Settings.read s.environment with
  | .error _ => .error .failure
  | .ok settings =>
    match Discovery.buildDirectory s.files settings path with
    | .ok result => .ok result
    | .error (.missing p) => .error (refuse (DiscoveryError.missing p))
    | .error (.unreachable p e) => .error (refuse (.unreachable p e))
    | .error _ => .error .failure
where
  refuse (e : DiscoveryError) : Outcome :=
    .ofFailure [.markup ("Error: " ++ e.message?.getD "")]

def lookup (path : Path) (name : String) (asJson : Bool) : Except Outcome Outcome := do
  let catalog := (← s.build path).catalog
  match catalog.lookup? name with
  | none => .error (.ofFailure [.markup ("Error: Not found: " ++ name)])
  | some d =>
    return .ofPrinted (if asJson then [.plain (d.toJson.pretty 0)] else lookupReport catalog name d)

def member (path : Path) (className name : String) : Except Outcome Outcome := do
  let catalog := (← s.build path).catalog
  match catalog.member? className name with
  | none => .error (.ofFailure [.markup ("Error: " ++ className ++ " has no member " ++ name)])
  | some m => return .ofPrinted (memberReport m)

def wantedKind (kind : String) : Except Outcome DiagnosticKind :=
  match DiagnosticKind.ofLabel? kind with
  | some k => .ok k
  | none =>
    .error (.ofFailure [.markup ("Error: Invalid kind: " ++ kind),
      .markup ("  Valid options: " ++ Text.joined ", " (DiagnosticKind.all.map (·.label)))])

def diagnostics (path : Path) (kind : Option String) : Except Outcome Outcome := do
  let kind ← kind.mapM wantedKind
  let found := (← s.build path).catalog.diagnostics
  return .ofPrinted (diagnosticsReport (kind.elim found (Diagnostic.ofKind · found)))

def save (path output : Path) : Except Outcome Outcome := do
  let catalog := (← s.build path).catalog
  let refuse (cause : String) : Outcome := .ofFailure [.markup ("Error: Export failed: " ++ cause)]
  let content ← (Snapshot.write catalog).mapError fun e => refuse e.message
  match s.files.writeError? (s.directory.join output) with
  | some e => .error (refuse (e.message output.text))
  | none =>
    let printed := Outcome.ofPrinted [.markup ("✓ Exported to " ++ output.text)]
    return { printed with written := some (s.directory.join output, content) }

def perform (path : Path) : Action → Except Outcome Outcome
  | .build asJson => do
    let result ← s.build path
    return .ofPrinted (if asJson then [.plain ((summaryJson result).pretty 0)] else summary result)
  | .lookup name asJson => s.lookup path name asJson
  | .member className name => s.member path className name
  | .diagnostics kind => s.diagnostics path kind
  | .save output => s.save path output

def runCommand (name : CommandName) (args : List String) : Except Outcome Outcome := do
  match ← (Request.read name args).mapError .ofUsageError with
  | .help => return { output := name.usage ++ "\n" }
  | .unusablePath => .error .failure
  | .command command =>
    let path := s.directory.resolve (.ofText command.path)
    if s.files.contains path then s.perform path command.action
    else .error (.ofUsageError (.noSuchPath command.path))

/-- The settings allow a run to start: they can be read, and the level of logging is known. -/
def canStart : Bool :=
  match Settings.read s.environment with
  | .ok settings => isLogLevel settings.logLevel
  | .error _ => false

def start (args : List String) : Except Outcome Outcome := do
  let given ← (readLeading programOptions args).mapError .ofUsageError
  if given.has "--help" then return { output := usage ++ "\n" }
  match given.arguments with
  | [] => .error (.ofUsageError .missingCommand)
  | word :: rest =>
    match CommandName.ofWord? word with
    | none => .error (.ofUsageError (.noSuchCommand word))
    | some name =>
      if given.has "--verbose" || s.canStart then s.runCommand name rest else .error .failure

def run (args : List String) : Outcome :=
  match s.start args with
  | .ok outcome => outcome
  | .error outcome => outcome

end Surroundings

end StubCatalog.CommandLine
