import QueryPlan.Text.Width

/-!
# Bordered tables

A table has a row of titles and rows of cells. Rules of `-` stand above, below
and between the rows, and a rule of `=` under the titles. Cells stand at the
left of their column with one blank on either side; a cell with several lines
makes its row as high. A cell with a line that hides more columns than it has
cannot be laid out.
-/

namespace QueryPlan.Text

/-- The lines of a text. A line ends at a line feed, with the carriage return
before it if there is one; an end at the very end of the text starts no
further line. -/
def splitLines : List Char → List (List Char)
  | [] => []
  | '\n' :: rest => [] :: splitLines rest
  | '\r' :: '\n' :: rest => [] :: splitLines rest
  | char :: rest =>
    match splitLines rest with
    | [] => [[char]]
    | line :: lines => (char :: line) :: lines

/-- The lines of a text. -/
def lines (text : String) : List String := (splitLines text.toList).map String.ofList

namespace Table

/-- A line with the number of its columns. -/
structure Line where
  text : String
  width : Nat

/-- A cell as the lines that it holds. -/
abbrev Cell := List Line

/-- The cell that shows a text. -/
def Cell.ofText (text : String) : Except Overdrawn Cell :=
  (lines text).mapM fun line => do return ⟨line, ← width line⟩

/-- Columns that a cell needs for its widest line. -/
def Cell.width (cell : Cell) : Nat := (cell.map Line.width).foldl max 0

/-- Lines of the tables that a row takes, at least one. -/
def rowHeight (row : List Cell) : Nat := (row.map List.length).foldl max 1

/-- Width of each column over all rows. Rows have the same number of cells. -/
def columnWidths (rows : List (List Cell)) : List Nat :=
  match rows with
  | [] => []
  | row :: rest =>
    rest.foldl (fun widths row => List.zipWith max widths (row.map Cell.width)) (row.map Cell.width)

/-- A rule over all columns. -/
def rule (fill : Char) (widths : List Nat) : String :=
  "+" ++ String.join (widths.map fun width =>
    String.ofList (List.replicate (width + 2) fill) ++ "+") ++ "\n"

/-- A line followed by blanks up to `columns`. -/
def padded (columns : Nat) (line : Line) : String :=
  line.text ++ String.ofList (List.replicate (columns - line.width) ' ')

/-- One line of a row; a cell with fewer lines is blank there. -/
def rowLine (widths : List Nat) (row : List Cell) (index : Nat) : String :=
  "|" ++ String.join (List.zipWith (fun width cell =>
    " " ++ padded width (cell.getD index ⟨"", 0⟩) ++ " |") widths row) ++ "\n"

/-- All lines of a row. -/
def rowText (widths : List Nat) (row : List Cell) : String :=
  String.join ((List.range (rowHeight row)).map (rowLine widths row))

/-- The table with these rows of cells under its titles. -/
def ofCells (titles : List Cell) (rows : List (List Cell)) : String :=
  let widths := columnWidths (titles :: rows)
  rule '-' widths ++ rowText widths titles ++ rule '=' widths ++
    String.join (rows.map fun row => rowText widths row ++ rule '-' widths)

/-- The table with these titles and rows. Cells are measured from left to right,
and rows from the top. -/
def render (titles : List String) (rows : List (List String)) : Except Overdrawn String := do
  let titleRow ← titles.mapM Cell.ofText
  let bodyRows ← rows.mapM (·.mapM Cell.ofText)
  return ofCells titleRow bodyRows

end Table

end QueryPlan.Text
