import StubCatalog.Query.Reference
import StubCatalog.TypeExpr.Written

/-! # Signatures at a call

Choosing a signature by the arguments of a call, binding its template parameters, and writing it as
a line of text. -/

namespace StubCatalog

namespace Catalog

variable (catalog : Catalog)

/-- The parameter that takes the argument at a position: the last one takes all further ones. -/
def parameterAt? (signature : Signature) (index : Nat) : Option Parameter :=
  signature.parameters[index]?.or signature.parameters.getLast?

/-- The argument at a position may have the type of its parameter; nothing is held against an
argument of unknown type. -/
def acceptsArgument (signature : Signature) (index : Nat) (arg : TypeExpr) : TypeExpr.Verdict :=
  if arg.isUnknown then .ok true
  else match parameterAt? signature index with
    | some param => TypeExpr.canOverlap arg param.type catalog.hierarchy
    | none => .ok true

/-- The signature accepts the arguments from this place on. -/
def acceptsFrom (signature : Signature) (index : Nat) : List TypeExpr → TypeExpr.Verdict
  | [] => .ok true
  | arg :: args =>
    match catalog.acceptsArgument signature index arg with
    | .ok true => acceptsFrom signature (index + 1) args
    | other => other

/-- The place of the first signature that accepts the arguments. -/
def selectFrom (args : List TypeExpr) (index : Nat) :
    List Signature → Except TypeExpr.CompareError (Option Nat)
  | [] => .ok none
  | signature :: others =>
    if signature.acceptsArity args.length then
      match catalog.acceptsFrom signature 0 args with
      | .error e => .error e
      | .ok true => .ok (some index)
      | .ok false => selectFrom args (index + 1) others
    else selectFrom args (index + 1) others

/-- The first signature that accepts the arguments. -/
def selectOverload (signatures : List Signature) (args : List TypeExpr) :
    Except TypeExpr.CompareError (Option Nat) :=
  catalog.selectFrom args 0 signatures

end Catalog

/-- The parameter as it is shown. -/
def Parameter.text (p : Parameter) : String :=
  p.type.text ++ (if p.isByReference then " &" else " ") ++ (if p.isVariadic then "..." else "")
    ++ "$" ++ p.name
    ++ (if p.hasDefault then " = " ++ p.defaultExpression.getD "None" else "")
    ++ (match p.outType with
      | some t => " (out: " ++ t.text ++ ")"
      | none => "")

/-- All integers in the parameter can be written. -/
def Parameter.isWritable (p : Parameter) : Bool :=
  p.type.isWritable && p.outType.all (·.isWritable)

/-- The parameter as it is shown, if it can be. -/
def Parameter.written (p : Parameter) : Except Numeral.Error String :=
  if p.isWritable then .ok p.text else .error .unwritable

/-- The signature as it is shown. -/
def Signature.text (name : String) (s : Signature) : String :=
  let templates :=
    if s.templates.isEmpty then ""
    else "<" ++ Text.joined ", " (s.templates.map (·.name)) ++ ">"
  name ++ templates ++ "(" ++ Text.joined ", " (s.parameters.map Parameter.text) ++ "): "
    ++ s.returnType.text

/-- The signature as it is shown, if it can be. -/
def Signature.written (name : String) (s : Signature) : Except Numeral.Error String :=
  if s.parameters.all (·.isWritable) && s.returnType.isWritable then .ok (s.text name)
  else .error .unwritable

end StubCatalog
