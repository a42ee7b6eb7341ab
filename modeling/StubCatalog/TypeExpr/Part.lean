import StubCatalog.Json.Compare

/-! # Small parts of types

Stored types may hold any value in the place of a word, truth value or bound. Such a value is shown
and written back as it was stored, counts as true unless it is zero or empty, and bounds what it is
comparable with. -/

namespace StubCatalog

/-- A name or a reason, as it was stored. -/
structure Label where
  stored : Json
  deriving Inhabited

namespace Label

instance : Coe String Label := ⟨fun s => ⟨.str s⟩⟩

/-- The label as a text. -/
def text (l : Label) : String := l.stored.plain

/-- Equality as stored data. -/
def same (a b : Label) : Bool := a.stored.same b.stored

@[simp]
theorem text_str (s : String) : Label.text ⟨.str s⟩ = s := rfl

end Label

/-- A mark, as it was stored. -/
structure Flag where
  stored : Json
  deriving Inhabited

namespace Flag

instance : Coe Bool Flag := ⟨fun b => ⟨.bool b⟩⟩

/-- The mark counts as set. -/
def isSet (f : Flag) : Bool := f.stored.isSet

/-- Equality as stored data. -/
def same (a b : Flag) : Bool := a.stored.same b.stored

@[simp]
theorem isSet_bool (b : Bool) : Flag.isSet ⟨.bool b⟩ = b := rfl

end Flag

/-- A bound of a range; null is no bound. -/
structure Bound where
  stored : Json
  deriving Inhabited

namespace Bound

/-- An integer as a bound, or no bound. -/
def ofInt? : Option Int → Bound
  | some n => ⟨.int n⟩
  | none => ⟨.null⟩

/-- There is no bound. -/
def isOpen (b : Bound) : Bool :=
  match b.stored with
  | .null => true
  | _ => false

/-- Equality as stored data. -/
def same (a b : Bound) : Bool := a.stored.same b.stored

end Bound

/-- The key of a field. -/
inductive ShapeKey where
  | int (value : Int)
  | str (value : String)
  /-- A key that is neither an integer nor a text, kept as it was stored. -/
  | stored (value : Json)
  deriving Inhabited

namespace ShapeKey

/-- The key as data. -/
def toJson : ShapeKey → Json
  | .int n => .int n
  | .str s => .str s
  | .stored j => j

/-- Equality as stored data. -/
def same (a b : ShapeKey) : Bool := a.toJson.same b.toJson

end ShapeKey

end StubCatalog
