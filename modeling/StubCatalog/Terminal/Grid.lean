import StubCatalog.Terminal.Markup
import StubCatalog.Terminal.Wrapping

/-! # Printing on a terminal

A table has a title, a header, a frame and columns as wide as their widest cells. If it is too wide,
the widest columns are made narrower first. -/

namespace StubCatalog.Terminal

def columns : Nat := 1000

structure Grid where
  title : Option String := none
  header : List String
  rows : List (List String) := []
  deriving Repr, Inhabited

inductive Printed where
  | markup (text : String)
  | plain (text : String)
  | grid (grid : Grid)
  | unprintable
  deriving Repr, Inhabited

namespace Grid

def cellWidth (cell : List Char) : Nat := ((Text.lines cell).map width).foldl max 0

/-- The width of a column with a blank on both sides: that of its widest cell, and `limit` at
most. -/
def columnWidth (limit : Nat) (rows : List (List (List Char))) (index : Nat) : Nat :=
  let content := (rows.map fun row => cellWidth (row.getD index [])).foldl max 0
  min (min content limit + 2) limit

def total (widths : List Nat) : Nat := widths.foldl (· + ·) 0

/-- Takes `excess` columns off those `count` widths that are equal to `widest`, in even parts and at
most `bound` off each. -/
def shorten (widest bound : Nat) (excess count : Nat) : List Nat → List Nat
  | [] => []
  | w :: ws =>
    if w = widest then
      let cut := min bound (Double.roundQuotient excess count)
      (w - cut) :: shorten widest bound (excess - cut) (count - 1) ws
    else w :: shorten widest bound excess count ws

/-- Makes the widest columns as narrow as the next ones until `limit` is kept; every step but the
last takes a column away, so `total widths` steps are enough. -/
def collapseIn (limit : Nat) : Nat → List Nat → List Nat
  | 0, widths => widths
  | steps + 1, widths =>
    let excess := total widths - limit
    if excess = 0 then widths
    else
      let widest := widths.foldl max 0
      let next := (widths.filter (· ≠ widest)).foldl max 0
      let bound := min excess (widest - next)
      collapseIn limit steps (shorten widest bound excess (widths.count widest) widths)

def collapse (limit : Nat) (widths : List Nat) : List Nat :=
  collapseIn limit (total widths) widths

def columnWidths (count : Nat) (rows : List (List (List Char))) : List Nat :=
  let limit := columns - (count + 1)
  let widths := (List.range count).map (columnWidth limit rows)
  if total widths ≤ limit then widths
  else (collapse limit widths).mapIdx fun index width => columnWidth width rows index

def frame (left fill cross right : Char) (widths : List Nat) : List Char :=
  left :: Text.join [cross] (widths.map fun w => List.replicate w fill) ++ [right]

/-- The lines of a row with a frame between the cells; the widths are those between the blanks. -/
def rowLines (bar : Char) (widths : List Nat) (row : List (List Char)) : List (List Char) :=
  let cells := List.zipWith (wrap .ellipsis) widths row
  let height := (cells.map List.length).foldl max 1
  (List.range height).map fun i =>
    let parts := List.zipWith (fun w cell => ' ' :: padEnd w (cell.getD i []) ++ [' ']) widths cells
    bar :: Text.join [bar] parts ++ [bar]

def lines (title : Option (List Char)) (header : List (List Char))
    (rows : List (List (List Char))) : List (List Char) :=
  let outer := columnWidths header.length (header :: rows)
  let widths := outer.map (· - 2)
  let top := frame '┏' '━' '┳' '┓' outer
  let titleLines := match title with
    | some title => (wrap .fold top.length title).map (center top.length)
    | none => []
  titleLines ++ [top] ++ rowLines '┃' widths header ++ [frame '┡' '━' '╇' '┩' outer]
    ++ rows.flatMap (rowLines '│' widths) ++ [frame '└' '─' '┴' '┘' outer]

/-- The lines of a table; `none` if one of its texts cannot be shown. An empty title takes no
line. -/
def lines? (g : Grid) : Option (List (List Char)) := do
  let title ← (g.title.filter (· ≠ "")).mapM shown?
  let rows ← g.rows.mapM (·.mapM shown?)
  return lines title (g.header.map String.toList) rows

end Grid

def Printed.lines? : Printed → Option (List (List Char))
  | .markup text => (shown? text).map (wrap .fold columns)
  | .plain text => some [text.toList]
  | .grid g => g.lines?
  | .unprintable => none

/-- The text on the terminal after printing in order, and whether all of it could be printed. -/
def screen : List Printed → String × Bool
  | [] => ("", true)
  | item :: items =>
    match item.lines? with
    | none => ("", false)
    | some lines =>
      let (rest, complete) := screen items
      (String.ofList (lines.flatMap (· ++ ['\n'])) ++ rest, complete)

end StubCatalog.Terminal
