/-! # Settings -/

namespace StubCatalog

/-- How a catalog is built. -/
structure Settings where
  maxWorkers : Int := 4
  filePattern : String := "*.php"
  /-- Discard every declaration of a file that could not be parsed as a whole. -/
  skipInvalidFiles : Bool := false
  reportAnnotationConflicts : Bool := true
  /-- Enumerations implement the interfaces of enumerations if those are declared. -/
  implicitEnumInterfaces : Bool := true
  unknownMarker : String := "UNKNOWN"
  logLevel : String := "WARNING"
  deriving DecidableEq, Repr, Inhabited

end StubCatalog
