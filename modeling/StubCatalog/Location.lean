/-! # Places in files -/

namespace StubCatalog

/-- A place in a file. -/
structure Location where
  file : String
  line : Int
  column : Int := 1
  deriving DecidableEq, Repr, Inhabited

end StubCatalog
