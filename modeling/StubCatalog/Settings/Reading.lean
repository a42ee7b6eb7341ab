import StubCatalog.Settings.Basic
import StubCatalog.Text.Lowercase
import StubCatalog.Validation

/-! # Reading settings

A setting is given directly or by an environment variable, in this order; otherwise it has its usual
value. -/

namespace StubCatalog

/-- The environment: variables with their values, in the order in which they were set. -/
abbrev Environment := Table String

namespace Settings

/-- The start of the names of environment variables for settings, in lower case. -/
def variableStart : String := "stubdb_"

/-- The variables that settings are read from. -/
def variableNames : List String :=
  ["STUBDB_MAX_WORKERS", "STUBDB_FILE_PATTERN", "STUBDB_SKIP_INVALID_FILES",
    "STUBDB_REPORT_ANNOTATION_CONFLICTS", "STUBDB_IMPLICIT_ENUM_INTERFACES",
    "STUBDB_UNKNOWN_SENTINEL", "STUBDB_LOG_LEVEL"]

/-- The value of the environment variable for a setting; the case of its name does not matter, and
the last one of several wins. -/
def fromEnvironment? (env : Environment) (key : String) : Option Json :=
  (env.pairs.reverse.find? fun (name, _) => Text.lower name == variableStart ++ key).map fun pair =>
    .str pair.2

/-- The value that is given for a setting. -/
def given? (env : Environment) (direct : Table Json) (key : String) : Option Json :=
  (direct.get? key).or (fromEnvironment? env key)

/-- A setting that is checked. -/
abbrev Given (α : Type) := Validated Empty α

/-- The number of workers. -/
def workers (j : Json) : Given Int :=
  match Expect.integer j with
  | .valid n =>
    if n < 1 then .refuse "Input should be greater than or equal to 1"
    else if n > 64 then .refuse "Input should be less than or equal to 64"
    else .valid n
  | other => other

/-- All settings, with their defaults. -/
def check (env : Environment) (direct : Table Json) : Given Settings :=
  let read {α : Type} (key : String) (default : α) (expect : Json → Given α) : Given α :=
    match given? env direct key with
    | some j => (expect j).under key
    | none => .valid default
  Settings.mk <$> read "max_workers" 4 workers <*> read "file_pattern" "*.php" Expect.text
    <*> read "skip_invalid_files" false Expect.flag
    <*> read "report_annotation_conflicts" true Expect.flag
    <*> read "implicit_enum_interfaces" true Expect.flag
    <*> read "unknown_sentinel" "UNKNOWN" Expect.text
    <*> read "log_level" "WARNING" Expect.text

/-- The settings, or what is wrong with them. -/
def read (env : Environment) (direct : Table Json := {}) : Except (List Problem) Settings :=
  match check env direct with
  | .valid settings => .ok settings
  | .invalid problems => .error problems

/-- The settings that were read before. -/
structure Store where
  current : Option Settings := none

/-- The settings in effect; they are read at the first time, and a failure leaves none in effect. -/
def Store.get (store : Store) (env : Environment) : Except (List Problem) Settings × Store :=
  match store.current with
  | some settings => (.ok settings, store)
  | none =>
    match Settings.read env with
    | .ok settings => (.ok settings, ⟨some settings⟩)
    | .error problems => (.error problems, store)

/-- Reads the settings again. -/
def Store.reload (_ : Store) (env : Environment) : Except (List Problem) Settings × Store :=
  Store.get {} env

end Settings

end StubCatalog
