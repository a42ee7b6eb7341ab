import StubCatalog.Text.Basic

/-! # Paths

A path is a list of names, counted from the root or from some directory, without empty names and
single dots. -/

namespace StubCatalog

structure Path where
  isAbsolute : Bool
  names : List String
  deriving DecidableEq, Repr, Inhabited

namespace Path

def root : Path := ⟨true, []⟩

def namesOf (text : String) : List String :=
  ((Text.fields '/' text.toList).map String.ofList).filter fun name => name != "" && name != "."

def ofText (text : String) : Path := ⟨text.toList.head? == some '/', namesOf text⟩

def text (p : Path) : String :=
  if p.isAbsolute then "/" ++ Text.joined "/" p.names
  else if p.names.isEmpty then "."
  else Text.joined "/" p.names

def child (p : Path) (name : String) : Path := { p with names := p.names ++ [name] }

def join (directory p : Path) : Path :=
  if p.isAbsolute then p else { directory with names := directory.names ++ p.names }

/-- Follows the names one by one from a place that is given in reverse; two dots go back one
name. -/
def followNames (place : List String) : List String → List String
  | [] => place.reverse
  | name :: names => followNames (if name == ".." then place.tail else name :: place) names

def resolve (directory p : Path) : Path := ⟨true, followNames [] (directory.join p).names⟩

def isUnusableText (text : String) : Bool := text.toList.contains '\x00'

def isUnusable (p : Path) : Bool := p.names.any isUnusableText

/-- Lists of names are compared name by name, a start coming before the whole. -/
def namesLe : List String → List String → Bool
  | [], _ => true
  | _ :: _, [] => false
  | a :: as, b :: bs => if a = b then namesLe as bs else decide (a < b)

def le (p q : Path) : Bool := namesLe p.names q.names

end Path

end StubCatalog
