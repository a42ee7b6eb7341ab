/-! # Halves of surrogate pairs

One half of a surrogate pair, which is no character, is kept as a character of the last block for
private use, so that it can be written the way it was named. -/

namespace StubCatalog.Text

def isHalfCode (n : Nat) : Bool := 0xD800 ≤ n && n < 0xE000

def firstHalf : Nat := 0x10F800

/-- The character that is kept for the half with code point `n`. -/
def halfOf (n : Nat) : Char := Char.ofNat (firstHalf + (n - 0xD800))

def halfCode? (c : Char) : Option Nat :=
  if firstHalf ≤ c.toNat then some (0xD800 + (c.toNat - firstHalf)) else none

def hasHalf (s : String) : Bool := s.toList.any fun c => (halfCode? c).isSome

end StubCatalog.Text
