import StubCatalog.CommandLine.Options
import StubCatalog.FileSystem.Path

/-! # Commands -/

namespace StubCatalog.CommandLine

inductive Action where
  | build (asJson : Bool)
  | lookup (name : String) (asJson : Bool)
  | member (className name : String)
  | diagnostics (kind : Option String)
  | save (output : Path)
  deriving DecidableEq, Repr

structure Command where
  path : String
  action : Action
  deriving DecidableEq, Repr

inductive CommandName where
  | build
  | lookup
  | member
  | diagnostics
  | save
  deriving DecidableEq, Repr

namespace CommandName

def all : List CommandName := [.build, .lookup, .member, .diagnostics, .save]

def word : CommandName → String
  | .build => "build"
  | .lookup => "lookup"
  | .member => "member"
  | .diagnostics => "diagnostics"
  | .save => "export"

def ofWord? (word : String) : Option CommandName := all.find? (·.word == word)

def help : OptionSpec := { name := "--help" }

def json : OptionSpec := { name := "--json" }

def options : CommandName → List OptionSpec
  | .build => [json, help]
  | .lookup => [json, help]
  | .member => [help]
  | .diagnostics => [{ name := "--kind", letter := some 'k', takesValue := true }, help]
  | .save => [{ name := "--output", letter := some 'o', takesValue := true }, help]

def arguments : CommandName → List String
  | .build => ["PATH"]
  | .lookup => ["PATH", "NAME"]
  | .member => ["PATH", "CLASS_NAME", "MEMBER_NAME"]
  | .diagnostics => ["PATH"]
  | .save => ["PATH"]

def usage (name : CommandName) : String :=
  "Usage: stubdb " ++ name.word ++ " [OPTIONS] " ++ Text.joined " " name.arguments

end CommandName

def usage : String :=
  "Usage: stubdb [OPTIONS] COMMAND [ARGS]...\n\nCommands: "
    ++ Text.joined ", " (CommandName.all.map (·.word))

def programOptions : List OptionSpec :=
  [{ name := "--verbose", letter := some 'v' }, CommandName.help]

inductive Request where
  | command (command : Command)
  | help
  | unusablePath
  deriving DecidableEq, Repr

def Command.ofArguments (name : CommandName) (a : Arguments) : Except UsageError Command :=
  match name, a.arguments with
  | .build, [path] => .ok ⟨path, .build (a.has "--json")⟩
  | .lookup, [path, symbol] => .ok ⟨path, .lookup symbol (a.has "--json")⟩
  | .member, [path, className, symbol] => .ok ⟨path, .member className symbol⟩
  | .diagnostics, [path] => .ok ⟨path, .diagnostics (a.value? "--kind")⟩
  | .save, [path] =>
    match a.value? "--output" with
    | some output => .ok ⟨path, .save (Path.ofText output)⟩
    | none => .error (.missingOption "--output")
  | _, given =>
    match name.arguments[given.length]? with
    | some missing => .error (.missingArgument missing)
    | none => .error .tooManyArguments

def Request.read (name : CommandName) (args : List String) : Except UsageError Request := do
  let given ← CommandLine.read name.options args
  if given.has "--help" then return .help
  let paths := (given.value? "--output").toList ++ given.arguments.take 1
  if paths.any Path.isUnusableText then return .unusablePath
  return .command (← Command.ofArguments name given)

end StubCatalog.CommandLine
