import StubCatalog.Text.Range

/-! # Blank characters and line ends

The characters that separate words, and those that end a line. -/

namespace StubCatalog.Text

def blankRanges : Array (Nat × Nat) :=
  #[
    (0x85, 0x85), (0xA0, 0xA0), (0x1680, 0x1680), (0x2000, 0x200A), (0x2028, 0x2029),
    (0x202F, 0x202F), (0x205F, 0x205F), (0x3000, 0x3000)]

def isBlank (c : Char) : Bool :=
  let n := c.toNat
  if n < 128 then (9 ≤ n && n ≤ 13) || (28 ≤ n && n ≤ 32) else inRanges blankRanges n

/-- The character ends a line on its own; a carriage return followed by a line feed is one end. -/
def isLineEnd (c : Char) : Bool :=
  let n := c.toNat
  (10 ≤ n && n ≤ 13) || (28 ≤ n && n ≤ 30) || n == 0x85 || n == 0x2028 || n == 0x2029

end StubCatalog.Text
