import StubCatalog.TypeExpr.Keyword
import StubCatalog.TypeExpr.Part

/-! # Type expressions

The types of declarations, and when two of them are the same. Class names are compared without
regard to case, members as sets; bounds of template parameters and reasons of unknown types are not
compared. -/

namespace StubCatalog

/-- A value that is written as a type. -/
inductive LiteralValue where
  | int (value : Int)
  | float (value : Double)
  | str (value : String)
  deriving DecidableEq, Repr, Inhabited

/-- A field of an array or object shape; a field without a key stands by its position. -/
structure ShapeField (τ : Type) where
  key : Option ShapeKey
  value : τ
  optional : Flag := false

/-- A parameter of a callable type. -/
structure CallableParameter (τ : Type) where
  type : τ
  optional : Flag := false
  variadic : Flag := false
  byReference : Flag := false

/-- A type expression. -/
inductive TypeExpr where
  | keyword (name : Label)
  | named (name : String)
  | nullable (inner : TypeExpr)
  | union (members : List TypeExpr)
  | intersection (members : List TypeExpr)
  | generic (name : String) (args : List TypeExpr)
  /-- An array or object with known fields; further ones are allowed unless it is sealed. -/
  | shape (kind : Label) (fields : List (ShapeField TypeExpr)) («sealed» : Flag)
      (extraKey extraValue : Option TypeExpr)
  | conditional (subject : Label) (target whenTrue whenFalse : TypeExpr) (negated : Flag)
  | literal (value : LiteralValue)
  | template (name : Label) (bound : Option TypeExpr)
  | intRange (min max : Bound)
  | callable (kind : Label) (params : List (CallableParameter TypeExpr))
      (result : Option TypeExpr)
  /-- The values of the class constants whose names match; a star matches anything. -/
  | memberReference (owner : String) (member : Label)
  | unknown (reason : Label)

instance : Inhabited TypeExpr := ⟨.unknown ""⟩

/-- Equality of values. -/
def LiteralValue.same : LiteralValue → LiteralValue → Bool
  | .int a, .int b => a == b
  | .float a, .float b => a.same b
  | .str a, .str b => a == b
  | _, _ => false

/-- Equality of keys that may be missing. -/
def sameKeys : Option ShapeKey → Option ShapeKey → Bool
  | none, none => true
  | some a, some b => a.same b
  | _, _ => false

namespace TypeExpr

/-! ### Built-in types -/

/-- The type of any value. -/
abbrev mixed : TypeExpr := .keyword "mixed"

/-- The type of null. -/
abbrev null : TypeExpr := .keyword "null"

/-- The type without values. -/
abbrev never : TypeExpr := .keyword "never"

/-! ### Equality -/

/-- A table of answers has a hit in every row and in each of its columns. -/
def isCovering (columns : Nat) (rows : List (List Bool)) : Bool :=
  rows.all (·.any id)
    && (rows.foldl (List.zipWith (· || ·)) (List.replicate columns false)).all id

mutual

/-- Equality of types: the order of members and the case of class names do not count. -/
def same : TypeExpr → TypeExpr → Bool
  | .keyword a, .keyword b => a.same b
  | .named a, .named b => Text.lower a == Text.lower b
  | .nullable a, .nullable b => a.same b
  | .union as, .union bs => isCovering bs.length (sameTable as bs)
  | .intersection as, .intersection bs => isCovering bs.length (sameTable as bs)
  | .generic a as, .generic b bs => Text.lower a == Text.lower b && sameList as bs
  | .shape a as s k v, .shape b bs t l w =>
    a.same b && sameFields as bs && s.same t && sameOption k l && sameOption v w
  | .conditional a t x y m, .conditional b u z w n =>
    a.same b && t.same u && x.same z && y.same w && m.same n
  | .literal a, .literal b => a.same b
  | .template a _, .template b _ => a.same b
  | .intRange a b, .intRange c d => a.same c && b.same d
  | .callable a as r, .callable b bs s => a.same b && sameParameters as bs && sameOption r s
  | .memberReference a m, .memberReference b n => a == b && m.same n
  | .unknown _, .unknown _ => true
  | _, _ => false

/-- Which types of the first list are the same as which of the second, a row for each of the
first. -/
def sameTable : List TypeExpr → List TypeExpr → List (List Bool)
  | [], _ => []
  | a :: as, bs => bs.map (fun b => a.same b) :: sameTable as bs

/-- Equality of lists, in order. -/
def sameList : List TypeExpr → List TypeExpr → Bool
  | [], [] => true
  | a :: as, b :: bs => a.same b && sameList as bs
  | _, _ => false

/-- Equality of types that may be missing. -/
def sameOption : Option TypeExpr → Option TypeExpr → Bool
  | none, none => true
  | some a, some b => a.same b
  | _, _ => false

/-- Equality of fields, in order. -/
def sameFields : List (ShapeField TypeExpr) → List (ShapeField TypeExpr) → Bool
  | [], [] => true
  | ⟨k, a, o⟩ :: as, ⟨l, b, p⟩ :: bs =>
    sameKeys k l && a.same b && o.same p && sameFields as bs
  | _, _ => false

/-- Equality of parameters, in order. -/
def sameParameters : List (CallableParameter TypeExpr) → List (CallableParameter TypeExpr) → Bool
  | [], [] => true
  | ⟨a, o, v, r⟩ :: as, ⟨b, p, w, s⟩ :: bs =>
    a.same b && o.same p && v.same w && r.same s && sameParameters as bs
  | _, _ => false

end

instance : BEq TypeExpr := ⟨same⟩

/-- Which types of a list are equal, a row for each. A type equals itself even if it holds a number
that equals nothing. -/
def equalities (ts : List TypeExpr) : List (List Bool) :=
  ts.zipIdx.map fun (t, i) => ts.zipIdx.map fun (u, j) => i == j || t.same u

/-! ### Size -/

mutual

/-- The number of nodes, bounds of template parameters included. -/
def size : TypeExpr → Nat
  | .nullable t => t.size + 1
  | .union ts => sizeList ts + 1
  | .intersection ts => sizeList ts + 1
  | .generic _ ts => sizeList ts + 1
  | .shape _ fs _ k v => sizeFields fs + sizeOption k + sizeOption v + 1
  | .conditional _ t a b _ => t.size + a.size + b.size + 1
  | .template _ b => sizeOption b + 1
  | .callable _ ps r => sizeParameters ps + sizeOption r + 1
  | _ => 1

/-- The size of a list of types. -/
def sizeList : List TypeExpr → Nat
  | [] => 0
  | t :: ts => t.size + sizeList ts

/-- The size of a type that may be missing. -/
def sizeOption : Option TypeExpr → Nat
  | none => 0
  | some t => t.size

/-- The size of fields. -/
def sizeFields : List (ShapeField TypeExpr) → Nat
  | [] => 0
  | ⟨_, t, _⟩ :: fs => t.size + sizeFields fs

/-- The size of parameters. -/
def sizeParameters : List (CallableParameter TypeExpr) → Nat
  | [] => 0
  | ⟨t, _, _, _⟩ :: ps => t.size + sizeParameters ps

end

theorem size_pos (t : TypeExpr) : 0 < t.size := by
  cases t <;> simp [size]

theorem size_le_sizeList {t : TypeExpr} : ∀ {ts : List TypeExpr}, t ∈ ts → t.size ≤ sizeList ts
  | u :: us, h => by
    rcases List.mem_cons.1 h with rfl | h
    · simp [sizeList]
    · have := size_le_sizeList h
      simp only [sizeList]
      omega

theorem size_le_sizeFields {f : ShapeField TypeExpr} :
    ∀ {fs : List (ShapeField TypeExpr)}, f ∈ fs → f.value.size ≤ sizeFields fs
  | ⟨k, t, o⟩ :: gs, h => by
    rcases List.mem_cons.1 h with rfl | h
    · simp [sizeFields]
    · have := size_le_sizeFields h
      simp only [sizeFields]
      omega

end TypeExpr

end StubCatalog
