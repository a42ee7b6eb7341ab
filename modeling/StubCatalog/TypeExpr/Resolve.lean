import StubCatalog.TypeExpr.Compare

/-! # Conditionals at a call

A subject that satisfies the test of a conditional takes one branch, a subject that cannot satisfy
it the other, and anything in between both. -/

namespace StubCatalog

/-- What is known about a call. -/
structure CallSite where
  arguments : Table TypeExpr := {}
  templates : Table TypeExpr := {}
  thisType : Option TypeExpr := none

/-- The type of what a conditional asks about. -/
def CallSite.subjectType? (call : CallSite) (subject : String) : Option TypeExpr :=
  if subject == "$this" then call.thisType
  else match TypeExpr.subjectParameter? subject with
    | some name => call.arguments.get? name
    | none => call.templates.get? subject

namespace TypeExpr

/-- Why a conditional is not decided. -/
inductive Undecided where
  | subject (name : String)
  | comparison (error : CompareError)
  deriving DecidableEq, Repr

/-- The answer of a comparison. -/
def decided : Verdict → Except Undecided Bool
  | .ok answer => .ok answer
  | .error e => .error (.comparison e)

/-- The branch of a conditional, or both if the comparison leaves it open. -/
def decideConditional (call : CallSite) (h : Hierarchy) (subject : Label)
    (target whenTrue whenFalse : Except Undecided TypeExpr) (negated : Flag) :
    Except Undecided TypeExpr :=
  match call.subjectType? subject.text with
  | none => .error (.subject subject.text)
  | some (.unknown _) => .error (.subject subject.text)
  | some t => do
    let target ← target
    if ← decided (isContainedBy t target h) then
      if negated.isSet then whenFalse else whenTrue
    else if ← decided (canOverlap t target h) then
      return unionOf [← whenTrue, ← whenFalse]
    else if negated.isSet then whenTrue else whenFalse

/-- Conditionals are decided for a call. -/
def deciding (call : CallSite) (h : Hierarchy) : Treatment (Except Undecided) where
  onTemplate := keepTemplate
  onConditional := decideConditional call h

/-- The type with its conditionals decided by what is known about a call. If nothing is known about
a subject, nothing is known about the type. -/
def resolveConditional (t : TypeExpr) (call : CallSite) (h : Hierarchy := .unknown) :
    Except CompareError TypeExpr :=
  match rebuild (deciding call h) t with
  | .ok result => .ok result
  | .error (.subject name) => .ok (.unknown ↑("no type known for conditional subject " ++ name))
  | .error (.comparison e) => .error e

end TypeExpr

end StubCatalog
