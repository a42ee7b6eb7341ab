/-! # Sets of code points given by ranges

A property that a standard lists by code point is an array of closed ranges from `128` on; below, it
is stated directly. -/

namespace StubCatalog.Text

/-- `n` lies in one of the closed ranges of the table. -/
def inRanges (table : Array (Nat × Nat)) (n : Nat) : Bool :=
  table.any fun range => range.1 ≤ n && n ≤ range.2

/-- As `rangesOf`, from the code point `n` on. -/
def rangesFrom (n : Nat) : List Nat → List (Nat × Nat)
  | out :: within :: rest => (n + out, n + out + within - 1) :: rangesFrom (n + out + within) rest
  | _ => []

/-- The ranges of a table that says, in turn, how many code points do not belong to the set and how
many do. -/
def rangesOf (table : List Nat) : Array (Nat × Nat) := (rangesFrom 0 table).toArray

end StubCatalog.Text
