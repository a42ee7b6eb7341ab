import StubCatalog.Diagnostic
import StubCatalog.TypeExpr.Compare

/-! # Results with diagnostics

Reading a declaration gives a result and the problems found on the way. A number that cannot be
converted, a comparison without an answer and a path that cannot be one stop a build. -/

namespace StubCatalog

/-- Why a build stops. -/
inductive BuildError where
  | numeral (error : Numeral.Error)
  | compare (error : TypeExpr.CompareError)
  | unusablePath
  deriving DecidableEq, Repr

/-- The text of the error. -/
def BuildError.message : BuildError → String
  | .numeral e => e.message
  | .compare e => e.message
  | .unusablePath => "embedded null byte"

/-- A result with the diagnostics found on the way, or the reason to stop. -/
structure Checked (α : Type) where
  run : Except BuildError (α × List Diagnostic)

namespace Checked

variable {α β : Type}

/-- A value without diagnostics. -/
protected def pure (a : α) : Checked α := ⟨.ok (a, [])⟩

/-- One step after another, with the diagnostics of both. -/
protected def bind (x : Checked α) (f : α → Checked β) : Checked β :=
  ⟨match x.run with
    | .error e => .error e
    | .ok (a, found) =>
      match (f a).run with
      | .error e => .error e
      | .ok (b, more) => .ok (b, found ++ more)⟩

instance : Monad Checked where
  pure := Checked.pure
  bind := Checked.bind

/-- Adds diagnostics. -/
def report (found : List Diagnostic) : Checked Unit := ⟨.ok ((), found)⟩

/-- A value or an error, without diagnostics. -/
def ofExcept (x : Except BuildError α) : Checked α := ⟨x.map (·, [])⟩

/-- Takes the step for each member and keeps the results. -/
def forAll (f : α → Checked β) : List α → Checked (List β)
  | [] => pure []
  | x :: xs => do
    let y ← f x
    let ys ← forAll f xs
    return y :: ys

/-- Takes the step for each member. -/
def each (f : α → Checked Unit) : List α → Checked Unit
  | [] => pure ()
  | x :: xs => do
    f x
    each f xs

end Checked

end StubCatalog
