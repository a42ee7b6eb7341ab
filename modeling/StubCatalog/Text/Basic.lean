import StubCatalog.Text.Blank

/-! # Cutting texts

Trimming blanks, and splitting into words, lines and fields. -/

namespace StubCatalog.Text

/-- Drops characters at the end. -/
def dropEndWhile (p : Char → Bool) (cs : List Char) : List Char :=
  (cs.reverse.dropWhile p).reverse

/-- Drops characters on both sides. -/
def trimBy (p : Char → Bool) (cs : List Char) : List Char :=
  dropEndWhile p (cs.dropWhile p)

/-- Drops blanks on both sides. -/
def trimBlanks (cs : List Char) : List Char := trimBy isBlank cs

/-- Drops blanks on both sides. -/
def trim (s : String) : String := String.ofList (trimBlanks s.toList)

/-- Splits at every character that satisfies `p`, giving one field more than there are
separators. -/
def fieldsBy (p : Char → Bool) : List Char → List (List Char)
  | [] => [[]]
  | c :: rest =>
    if p c then [] :: fieldsBy p rest
    else match fieldsBy p rest with
      | [] => [[c]]
      | field :: fields => (c :: field) :: fields

/-- Splits at a character. -/
def fields (sep : Char) (cs : List Char) : List (List Char) := fieldsBy (· == sep) cs

/-- What stands between blanks. -/
def words (cs : List Char) : List (List Char) :=
  (fieldsBy isBlank cs).filter fun word => !word.isEmpty

/-- The lines of a text, given the reversed start of the first one. -/
def linesFrom (line : List Char) : List Char → List (List Char)
  | [] => if line.isEmpty then [] else [line.reverse]
  | '\r' :: '\n' :: rest => line.reverse :: linesFrom [] rest
  | c :: rest =>
    if isLineEnd c then line.reverse :: linesFrom [] rest else linesFrom (c :: line) rest

/-- The lines of a text without their ends; an end of line at the end of the text opens no line. -/
def lines (cs : List Char) : List (List Char) := linesFrom [] cs

/-- The parts with a separator between them. -/
def join (sep : List Char) : List (List Char) → List Char
  | [] => []
  | [part] => part
  | part :: parts => part ++ sep ++ join sep parts

def joined (sep : String) : List String → String
  | [] => ""
  | [part] => part
  | part :: parts => part ++ sep ++ joined sep parts

def dropStart? (start cs : List Char) : Option (List Char) :=
  if start.isPrefixOf cs then some (cs.drop start.length) else none

def dropEnd? (ending cs : List Char) : Option (List Char) :=
  (dropStart? ending.reverse cs.reverse).map List.reverse

def cutAt? (mark : List Char) : List Char → Option (List Char × List Char)
  | [] => if mark.isEmpty then some ([], []) else none
  | c :: rest =>
    match dropStart? mark (c :: rest) with
    | some after => some ([], after)
    | none => (cutAt? mark rest).map fun (before, after) => (c :: before, after)

def contains (part cs : List Char) : Bool := (cutAt? part cs).isSome

end StubCatalog.Text
