import StubCatalog.Terminal.Cluster
import StubCatalog.Text.Basic

/-! # Wrapping lines

A line that is too long is broken in front of a word, and a word that is too long for a line is
broken or cut off. -/

namespace StubCatalog.Terminal

inductive Overflow where
  | fold
  | ellipsis
  deriving DecidableEq, Repr

/-! ### Words -/

/-- The words of a line, given the reversed start of a word and whether it holds more than
blanks. -/
def spacedWordsFrom (word : List Char) (isFilled : Bool) : List Char → List (List Char)
  | [] => if isFilled then [word.reverse] else []
  | c :: cs =>
    if Text.isBlank c then spacedWordsFrom (c :: word) isFilled cs
    else if isFilled && word.head?.any Text.isBlank then
      word.reverse :: spacedWordsFrom [c] true cs
    else spacedWordsFrom (c :: word) true cs

/-- The words of a line together with the blanks behind them; the first word also has the blanks in
front of it. -/
def spacedWords (line : List Char) : List (List Char) := spacedWordsFrom [] false line

/-- Puts clusters together to pieces that fit into `limit` columns. The piece under way is given in
reverse, with the columns that it takes. -/
def chopFrom (limit : Nat) (piece : List Char) (used : Nat) : List Cluster → List (List Char)
  | [] => if used = 0 then [] else [piece.reverse]
  | c :: cs =>
    if used + c.width > limit then piece.reverse :: chopFrom limit c.chars.reverse c.width cs
    else chopFrom limit (c.chars.reverse ++ piece) (used + c.width) cs

def chop (limit : Nat) (word : List Char) : List (List Char) := chopFrom limit [] 0 (clusters word)

/-! ### Lines -/

/-- Lines under way: those before the last one in reverse order, and the last one with the columns
that it takes. -/
structure Lines where
  before : List (List Char) := []
  last : List Char := []
  used : Nat := 0

namespace Lines

def toList (lines : Lines) : List (List Char) := (lines.last :: lines.before).reverse

def isFresh (lines : Lines) : Bool := lines.before.isEmpty && lines.last.isEmpty

def onNewLine (lines : Lines) (piece : List Char) : Lines :=
  if lines.isFresh then { last := piece, used := width piece }
  else { before := lines.last :: lines.before, last := piece, used := width piece }

def onLastLine (lines : Lines) (piece : List Char) : Lines :=
  { lines with last := lines.last ++ piece, used := lines.used + width piece }

def put (overflow : Overflow) (limit : Nat) (lines : Lines) (word : List Char) : Lines :=
  let needed := width (Text.dropEndWhile Text.isBlank word)
  if lines.used + needed ≤ limit then lines.onLastLine word
  else if needed ≤ limit then lines.onNewLine word
  else match overflow with
    | .fold => (chop limit word).foldl onNewLine lines
    | .ellipsis => lines.onNewLine word

end Lines

def breakLine (overflow : Overflow) (limit : Nat) (line : List Char) : List (List Char) :=
  match spacedWords line with
  | [] => [line]
  | words => (words.foldl (Lines.put overflow limit) {}).toList

/-- Puts the parts between tabs together, with blanks in the place of a tab up to the next multiple
of eight columns; `used` columns are in front. -/
def joinTabbed (used : Nat) : List (List Char) → List Char
  | [] => []
  | [part] => part
  | part :: parts =>
    let spaced := part ++ [' ']
    let reached := used + width spaced
    let blanks := (8 - reached % 8) % 8
    spaced ++ List.replicate blanks ' ' ++ joinTabbed (reached + blanks) parts

def expandTabs (line : List Char) : List Char := joinTabbed 0 (Text.fields '\t' line)

/-- As many clusters as fit into `limit` columns; half of a wide one becomes a blank. -/
def takeClusters (limit : Nat) : List Cluster → List Char
  | [] => []
  | c :: cs =>
    if c.width ≤ limit then c.chars ++ takeClusters (limit - c.width) cs
    else List.replicate limit ' '

def takeWidth (limit : Nat) (text : List Char) : List Char :=
  if limit = 0 then [] else takeClusters limit (clusters text)

def crop (overflow : Overflow) (limit : Nat) (line : List Char) : List Char :=
  if width line ≤ limit then line
  else match overflow with
    | .fold => takeWidth limit line
    | .ellipsis => takeWidth (limit - 1) line ++ ['…']

/-- Drops blanks at the end as long as the line has more than `limit` characters. -/
def dropExcessBlanks (limit : Nat) (line : List Char) : List Char :=
  let kept := Text.dropEndWhile Text.isBlank line
  line.take (max kept.length (min limit line.length))

def wrap (overflow : Overflow) (limit : Nat) (text : List Char) : List (List Char) :=
  (Text.fields '\n' text).flatMap fun line =>
    (breakLine overflow limit (expandTabs line)).map fun piece =>
      crop overflow limit (dropExcessBlanks limit piece)

def fill (limit : Nat) (line : List Char) : List Char :=
  line ++ List.replicate (limit - width line) ' '

/-- A line of `limit` columns. A joiner at the end of the line draws in the first blank, so the line
is filled a second time. -/
def padEnd (limit : Nat) (line : List Char) : List Char := fill limit (fill limit line)

/-- A line in the middle of `limit` columns; a blank that is left over goes to the end. -/
def center (limit : Nat) (line : List Char) : List Char :=
  let line := Text.dropEndWhile Text.isBlank line
  fill limit (List.replicate ((limit - width line) / 2) ' ' ++ line)

end StubCatalog.Terminal
