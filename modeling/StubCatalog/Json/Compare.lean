import StubCatalog.Json.Basic

/-! # JSON values beside each other

Values are compared by what they stand for: a truth value as one or zero, numbers exactly, and
objects without regard to the order of their fields. A decimal that is no number is neither equal to
anything nor below it. -/

namespace StubCatalog

/-! ### Numbers on an exact scale -/

/-- A number: an integer times a power of two, or one beyond all of these. -/
inductive Magnitude where
  | finite (factor exponent : Int)
  | infinite (negative : Bool)
  deriving DecidableEq, Repr

namespace Magnitude

def factorAt (factor exponent lower : Int) : Int := factor * Nat.pow 2 (exponent - lower).toNat

def le : Magnitude → Magnitude → Bool
  | .infinite true, _ => true
  | _, .infinite false => true
  | .finite m e, .finite n f => factorAt m e (min e f) ≤ factorAt n f (min e f)
  | _, _ => false

end Magnitude

namespace Json

def magnitude? : Json → Option Magnitude
  | .bool b => some (.finite (if b then 1 else 0) 0)
  | .int n => some (.finite n 0)
  | .float (.finite negative m e) => some (.finite (if negative then -(m : Int) else m) e)
  | .float (.infinite negative) => some (.infinite negative)
  | _ => none

def le : Json → Json → Bool
  | .int a, .int b => a ≤ b
  | a, b =>
    match a.magnitude?, b.magnitude? with
    | some x, some y => x.le y
    | _, _ => false

def lt (a b : Json) : Bool := a.le b && !b.le a

theorem le_int_int (a b : Int) : Json.le (.int a) (.int b) = decide (a ≤ b) := rfl

/-! ### Equality -/

mutual

def same : Json → Json → Bool
  | .null, .null => true
  | .str a, .str b => a == b
  | .arr as, .arr bs => sameItems as bs
  | .obj as, .obj bs => as.length == bs.length && sameFields as bs
  | a, b => a.le b && b.le a

def sameItems : List Json → List Json → Bool
  | [], [] => true
  | a :: as, b :: bs => a.same b && sameItems as bs
  | _, _ => false

def sameFields : List (String × Json) → List (String × Json) → Bool
  | [], _ => true
  | (key, a) :: as, bs => (bs.lookup key).any (a.same ·) && sameFields as bs

end

/-- The value counts as true: it is neither zero nor empty. -/
def isSet : Json → Bool
  | .null => false
  | .bool b => b
  | .int n => n != 0
  | .float d => !d.isZero
  | .str s => s != ""
  | .arr items => !items.isEmpty
  | .obj fields => !fields.isEmpty

/-- The value inside running text: a text stands without quotes. -/
def plain : Json → String
  | .str s => s
  | j => j.shown

end Json

end StubCatalog
