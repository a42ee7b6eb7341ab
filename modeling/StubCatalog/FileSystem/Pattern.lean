import StubCatalog.Text.Basic

/-! # Patterns for names

An asterisk stands for any text, a question mark for any character, and brackets for one of the
characters that they list, or for any other one behind an exclamation mark. A bracket that is never
closed stands for itself. -/

namespace StubCatalog

inductive PatternItem where
  | anyText
  | anyChar
  | char (c : Char)
  | oneOf (ranges : List (Char × Char))
  | noneOf (ranges : List (Char × Char))
  deriving DecidableEq, Repr

namespace PatternItem

def isListed (c : Char) (ranges : List (Char × Char)) : Bool :=
  ranges.any fun range => decide (range.1 ≤ c ∧ c ≤ range.2)

def accepts (c : Char) : PatternItem → Bool
  | .anyText => true
  | .anyChar => true
  | .char d => c == d
  | .oneOf ranges => isListed c ranges
  | .noneOf ranges => !isListed c ranges

/-! ### Lists in brackets -/

/-- The length of the content of brackets that were just opened. The first character of the list
cannot close them. -/
def listLength? (cs : List Char) : Option Nat :=
  let mark := if cs.head? == some '!' then 1 else 0
  let first := if (cs.drop mark).head? == some ']' then mark + 1 else mark
  let rest := cs.drop first
  let body := rest.takeWhile (· != ']')
  if body.length < rest.length then some (first + body.length) else none

/-- Cuts a list at the hyphens that stand for ranges. A hyphen among the next `skip` characters
stands for itself. -/
def chunksFrom (chunk : List Char) (skip : Nat) : List Char → List (List Char)
  | [] => [chunk.reverse]
  | c :: cs =>
    if skip = 0 ∧ c = '-' then chunk.reverse :: chunksFrom [] 2 cs
    else chunksFrom (c :: chunk) (skip - 1) cs

/-- The parts of a list between the hyphens that stand for ranges. -/
def chunks (cs : List Char) : List (List Char) :=
  let parts := chunksFrom [] (if cs.head? == some '!' then 2 else 1) cs
  match parts.reverse with
  | [] :: last :: others => (others.reverse ++ [last ++ ['-']])
  | _ => parts

def dropEmptyRanges : List (List Char) → List (List Char)
  | [] => []
  | chunk :: others =>
    match dropEmptyRanges others with
    | [] => [chunk]
    | next :: rest =>
      match chunk.getLast?, next with
      | some low, high :: _ =>
        if low > high then (chunk.dropLast ++ next.tail) :: rest else chunk :: next :: rest
      | _, _ => chunk :: next :: rest

/-- The ranges of a list: a hyphen between two parts joins the last character of one with the first
character of the next. -/
def rangesOf : List (List Char) → List (Char × Char)
  | [] => []
  | [chunk] => chunk.map fun c => (c, c)
  | chunk :: next :: rest =>
    match chunk.getLast?, next with
    | some low, high :: tail =>
      chunk.dropLast.map (fun c => (c, c)) ++ (low, high) :: rangesOf (tail :: rest)
    | none, _ => ('-', '-') :: rangesOf (next :: rest)
    | _, [] => chunk.map (fun c => (c, c)) ++ rangesOf (next :: rest)
termination_by chunks => chunks.length

def ofList (cs : List Char) : PatternItem :=
  match dropEmptyRanges (chunks cs) with
  | ('!' :: chunk) :: rest => .noneOf (rangesOf (chunk :: rest))
  | parts => .oneOf (rangesOf parts)

end PatternItem

structure FilePattern where
  items : List PatternItem
  deriving DecidableEq, Repr

namespace FilePattern

def parseItems (cs : List Char) : List PatternItem :=
  match cs with
  | [] => []
  | '*' :: rest => .anyText :: parseItems rest
  | '?' :: rest => .anyChar :: parseItems rest
  | '[' :: rest =>
    match PatternItem.listLength? rest with
    | some n => .ofList (rest.take n) :: parseItems (rest.drop (n + 1))
    | none => .char '[' :: parseItems rest
  | c :: rest => .char c :: parseItems rest
termination_by cs.length

def ofText (text : String) : FilePattern := ⟨parseItems text.toList⟩

def matchItems : List PatternItem → List Char → Bool
  | [], cs => cs.isEmpty
  | .anyText :: items, [] => matchItems items []
  | .anyText :: items, c :: cs => matchItems items (c :: cs) || matchItems (.anyText :: items) cs
  | _ :: _, [] => false
  | item :: items, c :: cs => item.accepts c && matchItems items cs
termination_by items cs => items.length + cs.length

def isMatch (p : FilePattern) (name : String) : Bool := matchItems p.items name.toList

end FilePattern

end StubCatalog
