import StubCatalog.Text.Basic

/-! # Options and arguments

Options start with hyphens and stand anywhere between the arguments; two hyphens alone end them.
Options of one letter without a value can be written together. -/

namespace StubCatalog.CommandLine

structure OptionSpec where
  name : String
  letter : Option Char := none
  takesValue : Bool := false
  deriving DecidableEq, Repr

inductive UsageError where
  | noSuchOption (name : String)
  | needsValue (name : String)
  | takesNoValue (name : String)
  | missingOption (name : String)
  | missingArgument (name : String)
  | tooManyArguments
  | missingCommand
  | noSuchCommand (name : String)
  | noSuchPath (path : String)
  deriving DecidableEq, Repr

def UsageError.message : UsageError → String
  | .noSuchOption name => "No such option: " ++ name
  | .needsValue name => "Option " ++ name ++ " requires an argument."
  | .takesNoValue name => "Option " ++ name ++ " does not take a value."
  | .missingOption name => "Missing option " ++ name ++ "."
  | .missingArgument name => "Missing argument " ++ name ++ "."
  | .tooManyArguments => "Got unexpected extra arguments."
  | .missingCommand => "Missing command."
  | .noSuchCommand name => "No such command: " ++ name
  | .noSuchPath path => "Path does not exist: " ++ path

structure Arguments where
  options : List (String × String) := []
  arguments : List String := []
  deriving DecidableEq, Repr, Inhabited

namespace Arguments

def has (a : Arguments) (name : String) : Bool := a.options.any (·.1 == name)

/-- The value of an option; the last one wins. -/
def value? (a : Arguments) (name : String) : Option String := a.options.reverse.lookup name

end Arguments

/-- What one argument of options comes down to: the options read, and the option whose value is the
next argument. -/
structure ReadOptions where
  options : List (String × String) := []
  pending : Option String := none

def readLetters (specs : List OptionSpec) : List Char → Except UsageError ReadOptions
  | [] => .ok {}
  | c :: cs =>
    match specs.find? (·.letter == some c) with
    | none => .error (.noSuchOption (String.ofList ['-', c]))
    | some spec =>
      if spec.takesValue then
        if cs.isEmpty then .ok { pending := some spec.name }
        else .ok { options := [(spec.name, String.ofList cs)] }
      else do
        let others ← readLetters specs cs
        return { others with options := (spec.name, "") :: others.options }

def readOption (specs : List OptionSpec) (arg : String) : Except UsageError ReadOptions :=
  let (name, value) := match Text.cutAt? ['='] arg.toList with
    | some (name, value) => (String.ofList name, some (String.ofList value))
    | none => (arg, none)
  match specs.find? (·.name == name) with
  | some spec =>
    match spec.takesValue, value with
    | true, some v => .ok { options := [(spec.name, v)] }
    | true, none => .ok { pending := some spec.name }
    | false, some _ => .error (.takesNoValue name)
    | false, none => .ok { options := [(spec.name, "")] }
  | none =>
    match arg.toList with
    | '-' :: '-' :: _ => .error (.noSuchOption name)
    | _ :: letters => readLetters specs letters
    | [] => .error (.noSuchOption name)

/-- Reads a command line on. Options end at the first argument if `argumentsEnd` is set, and
`pending` is an option that waits for its value. -/
def readFrom (specs : List OptionSpec) (argumentsEnd : Bool) (pending : Option String)
    (found : Arguments) : List String → Except UsageError Arguments
  | [] =>
    match pending with
    | some name => .error (.needsValue name)
    | none => .ok found
  | arg :: rest =>
    match pending with
    | some name =>
      readFrom specs argumentsEnd none { found with options := found.options ++ [(name, arg)] } rest
    | none =>
      if arg == "--" then .ok { found with arguments := found.arguments ++ rest }
      else if arg.length > 1 && arg.toList.head? == some '-' then do
        let new ← readOption specs arg
        readFrom specs argumentsEnd new.pending
          { found with options := found.options ++ new.options } rest
      else if argumentsEnd then .ok { found with arguments := found.arguments ++ arg :: rest }
      else
        readFrom specs argumentsEnd none { found with arguments := found.arguments ++ [arg] } rest

def read (specs : List OptionSpec) (args : List String) : Except UsageError Arguments :=
  readFrom specs false none {} args

def readLeading (specs : List OptionSpec) (args : List String) : Except UsageError Arguments :=
  readFrom specs true none {} args

end StubCatalog.CommandLine
