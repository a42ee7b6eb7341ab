import StubCatalog.CommandLine.Input
import StubCatalog.CommandLine.Run

/-! # The program

The files that a run can see come in on standard input, one on a line. -/

open StubCatalog

/-- The variables that settings are read from. -/
def readEnvironment : IO Environment := do
  let mut environment : Environment := {}
  for name in Settings.variableNames do
    if let some value ← IO.getEnv name then environment := environment.insert name value
  return environment

partial def readFiles (input : IO.FS.Stream) (directory : Path) (files : FileSystem Stub.Content) :
    IO (Except CommandLine.InputError (FileSystem Stub.Content)) := do
  let line ← input.getLine
  if line.isEmpty then return .ok files
  match CommandLine.addLine directory files line with
  | .ok files => readFiles input directory files
  | .error e => return .error e

/-- Writes what a command puts out. -/
def finish (outcome : CommandLine.Outcome) : IO UInt32 := do
  if let some (path, content) := outcome.written then IO.FS.writeFile path.text content
  IO.print outcome.output
  IO.eprint outcome.errors
  return outcome.exitCode.toUInt32

/-- Runs a command on the files that are handed in. -/
def main (args : List String) : IO UInt32 := do
  let directory := Path.ofText (← IO.currentDir).toString
  match ← readFiles (← IO.getStdin) directory {} with
  | .error e =>
    IO.eprintln ("Error: Invalid input: " ++ e.message)
    return 1
  | .ok files =>
    let environment ← readEnvironment
    finish (CommandLine.Surroundings.run { environment, files, directory } args)
