import StubCatalog.Table
import StubCatalog.TypeExpr.Union

/-! # Walking through and rebuilding types

The one way in which types are rebuilt from rebuilt parts. Substitution, erasure of templates and
the approximation of conditionals are instances. -/

namespace StubCatalog.TypeExpr

/-- The types directly inside a type; the bound of a template parameter is not one of them. -/
def children : TypeExpr → List TypeExpr
  | .nullable t => [t]
  | .union ts => ts
  | .intersection ts => ts
  | .generic _ ts => ts
  | .shape _ fields _ key value => fields.map ShapeField.value ++ key.toList ++ value.toList
  | .conditional _ target whenTrue whenFalse _ => [target, whenTrue, whenFalse]
  | .callable _ params result => params.map CallableParameter.type ++ result.toList
  | _ => []

mutual

/-- The type and all types inside it. -/
def nodes : TypeExpr → List TypeExpr
  | .nullable t => .nullable t :: t.nodes
  | .union ts => .union ts :: nodesList ts
  | .intersection ts => .intersection ts :: nodesList ts
  | .generic name ts => .generic name ts :: nodesList ts
  | .shape kind fields s key value =>
    .shape kind fields s key value :: nodesFields fields ++ nodesOption key ++ nodesOption value
  | .conditional subject t a b negated =>
    .conditional subject t a b negated :: t.nodes ++ a.nodes ++ b.nodes
  | .callable kind params result =>
    .callable kind params result :: nodesParameters params ++ nodesOption result
  | t => [t]

/-- The types in a list and inside it. -/
def nodesList : List TypeExpr → List TypeExpr
  | [] => []
  | t :: ts => t.nodes ++ nodesList ts

/-- The types in a type that may be missing. -/
def nodesOption : Option TypeExpr → List TypeExpr
  | none => []
  | some t => t.nodes

/-- The types inside fields. -/
def nodesFields : List (ShapeField TypeExpr) → List TypeExpr
  | [] => []
  | ⟨_, t, _⟩ :: fs => t.nodes ++ nodesFields fs

/-- The types inside parameters. -/
def nodesParameters : List (CallableParameter TypeExpr) → List TypeExpr
  | [] => []
  | ⟨t, _, _, _⟩ :: ps => t.nodes ++ nodesParameters ps

end

/-- The type is a conditional. -/
def isConditional : TypeExpr → Bool
  | .conditional .. => true
  | _ => false

/-- The conditionals in a type. -/
def conditionals (t : TypeExpr) : List TypeExpr := t.nodes.filter isConditional

/-- The parameter that a conditional asks about, without its dollar sign; none if it asks about a
template parameter. -/
def subjectParameter? (subject : String) : Option String :=
  match subject.toList with
  | '$' :: rest => some (String.ofList rest)
  | _ => none

/-- What becomes of the nodes that a rebuilding treats in its own way. -/
structure Treatment (m : Type → Type) where
  onTemplate : Label → Option TypeExpr → Option (m TypeExpr) → m TypeExpr
  /-- A conditional: its subject, its target and branches rebuilt, and whether it is negated. -/
  onConditional : Label → m TypeExpr → m TypeExpr → m TypeExpr → Flag → m TypeExpr

variable {m : Type → Type} [Monad m]

/-- A conditional is rebuilt from its parts. -/
def keepConditional (subject : Label) (target whenTrue whenFalse : m TypeExpr) (negated : Flag) :
    m TypeExpr := do
  return .conditional subject (← target) (← whenTrue) (← whenFalse) negated

/-- A template parameter stays as it is. -/
def keepTemplate (name : Label) (bound : Option TypeExpr) (_ : Option (m TypeExpr)) :
    m TypeExpr :=
  pure (.template name bound)

mutual

/-- Treats template parameters and conditionals and puts the types together again. -/
def rebuild (w : Treatment m) : TypeExpr → m TypeExpr
  | .nullable t => do return nullableOf (← rebuild w t)
  | .union ts => do return unionOf (← rebuildList w ts)
  | .intersection ts => do return intersectionOf (← rebuildList w ts)
  | .generic name ts => do return .generic name (← rebuildList w ts)
  | .shape kind fields s key value => do
    return .shape kind (← rebuildFields w fields) s (← rebuildOption w key)
      (← rebuildOption w value)
  | .conditional subject t a b negated =>
    w.onConditional subject (rebuild w t) (rebuild w a) (rebuild w b) negated
  | .callable kind params result => do
    return .callable kind (← rebuildParameters w params) (← rebuildOption w result)
  | .template name none => w.onTemplate name none none
  | .template name (some bound) => w.onTemplate name (some bound) (some (rebuild w bound))
  | t => pure t

/-- Rebuilds a list of types. -/
def rebuildList (w : Treatment m) : List TypeExpr → m (List TypeExpr)
  | [] => pure []
  | t :: ts => do return (← rebuild w t) :: (← rebuildList w ts)

/-- Rebuilds a type that may be missing. -/
def rebuildOption (w : Treatment m) : Option TypeExpr → m (Option TypeExpr)
  | none => pure none
  | some t => do return some (← rebuild w t)

/-- Rebuilds the types of fields. -/
def rebuildFields (w : Treatment m) : List (ShapeField TypeExpr) → m (List (ShapeField TypeExpr))
  | [] => pure []
  | ⟨key, t, optional⟩ :: fs => do
    return ⟨key, ← rebuild w t, optional⟩ :: (← rebuildFields w fs)

/-- Rebuilds the types of parameters. -/
def rebuildParameters (w : Treatment m) :
    List (CallableParameter TypeExpr) → m (List (CallableParameter TypeExpr))
  | [] => pure []
  | ⟨t, optional, variadic, byReference⟩ :: ps => do
    return ⟨← rebuild w t, optional, variadic, byReference⟩ :: (← rebuildParameters w ps)

end

/-- Template parameters are replaced by their bindings. -/
def substitution (bindings : Table TypeExpr) : Treatment Id where
  onTemplate name bound _ := pure ((bindings.get? name.text).getD (.template name bound))
  onConditional := keepConditional

/-- Replaces template parameters by types. -/
def substitute (bindings : Table TypeExpr) (t : TypeExpr) : TypeExpr :=
  if bindings.pairs.isEmpty then t else (rebuild (substitution bindings) t).run

/-- Template parameters are replaced by their bounds. -/
def erasure : Treatment Id where
  onTemplate _ _ bound := bound.getD (pure mixed)
  onConditional := keepConditional

/-- The type with every template parameter replaced by its bound, or by the type of any value. -/
def eraseTemplates (t : TypeExpr) : TypeExpr := (rebuild erasure t).run

/-- Conditionals are replaced by both branches. -/
def branching : Treatment Id where
  onTemplate := keepTemplate
  onConditional _ _ whenTrue whenFalse _ := pure (unionOf [whenTrue.run, whenFalse.run])

/-- The type with both branches for each conditional. -/
def conditionalBranches (t : TypeExpr) : TypeExpr := (rebuild branching t).run

end StubCatalog.TypeExpr
