import MipsBackend.Report.Template
import MipsBackend.Report.Wrap

/-! Text tables with a title, a header and rows, in a frame of dashes and bars. -/
namespace MipsBackend

inductive Cell where
  | number (n : Nat)
  | text (s : String)
  deriving DecidableEq

/-- A table. Its title is a template without arguments. -/
structure Table where
  title : String
  header : List String
  rows : List (List Cell)
  deriving DecidableEq

namespace Cell

/-- A line as a terminal shows it: what follows a carriage return is written over its start. -/
def overwrite (s : List Char) : List Char :=
  (Text.pieces '\r' s).foldl (fun shown p => p ++ shown.drop p.length) []

def lines : Cell → List (List Char)
  | .number n => [(toString n).toList]
  | .text s => (Text.pieces '\n' (Text.unifyBreaks (expandTabs s.toList))).map overwrite

def isNumber : Cell → Bool
  | .number _ => true
  | .text _ => false

/-- The columns that a cell takes. -/
def width (c : Cell) : Nat := (c.lines.map Text.displayWidth).foldl max 0

end Cell

namespace Table

/-- A text brought to a width by spaces, behind it or, if `right`, before it. -/
def pad (right : Bool) (w : Nat) (s : List Char) : List Char :=
  if right then List.replicate (w - Text.displayWidth s) ' ' ++ s
  else
    let s := Text.trimRight (· == ' ') s
    s ++ List.replicate (w - Text.displayWidth s) ' '

/-- The header as it is printed. -/
def headings (t : Table) : List (List Char) := t.header.map fun s => s.toList.map Char.toUpper

def column (t : Table) (j : Nat) : List Cell := t.rows.map fun r => r.getD j (.text "")

/-- How a column is laid out. -/
structure Layout where
  width : Nat
  right : Bool
  deriving DecidableEq

/-- A column is as wide as its widest cell or heading; numbers are aligned to the right, if
there is nothing else in the column. -/
def columnLayout (t : Table) (j : Nat) : Layout :=
  let cells := t.column j
  { width := (cells.map Cell.width).foldl max (Text.displayWidth (t.headings.getD j [])),
    right := cells.all Cell.isNumber }

def layout (t : Table) : List Layout := (List.range t.header.length).map t.columnLayout

/-- The width of a table inside its frame, without the spaces next to the frame. -/
def innerWidth (ls : List Layout) : Nat := (ls.foldr (fun l n => l.width + 3 + n) 0) - 3

/-- A line between two parts of a table. -/
def rule (ls : List Layout) : List Char :=
  '+' :: ls.flatMap fun l => List.replicate (l.width + 2) '-' ++ ['+']

/-- The line over the title. -/
def topRule (ls : List Layout) : List Char :=
  '+' :: List.replicate (innerWidth ls + 2) '-' ++ ['+']

/-- A line of a row. -/
def rowLine (ls : List Layout) (cells : List (List Char)) : List Char :=
  '|' :: (ls.zip cells).flatMap fun (l, c) => ' ' :: pad l.right l.width c ++ [' ', '|']

/-- The lines of a row, as many as its highest cell has. Lower cells end in empty lines. -/
def rowLines (ls : List Layout) (cells : List Cell) : List (List Char) :=
  let texts := cells.map Cell.lines
  let height := (texts.map List.length).foldl max 0
  (List.range height).map fun i => rowLine ls (texts.map fun t => t.getD i [])

/-- The lines of the title, which goes over all columns. -/
def titleLines (t : Table) (w : Nat) : List (List Char) :=
  (wrap w (Template.expand t.title.toList)).map fun s =>
    '|' :: ' ' :: pad false w (Text.trim s) ++ [' ', '|']

def lines (t : Table) : List (List Char) :=
  let ls := t.layout
  topRule ls :: t.titleLines (innerWidth ls) ++
    [rule ls, rowLine ls t.headings, rule ls] ++ t.rows.flatMap (rowLines ls) ++ [rule ls]

def text (t : Table) : String := String.ofList (t.lines.flatMap (· ++ ['\n']))

end Table
end MipsBackend
