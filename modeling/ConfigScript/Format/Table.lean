import ConfigScript.Format.Width
import ConfigScript.Text.Search

/-!
# Tables

Texts in columns, drawn with ASCII characters. A column is as wide as its widest line, with a blank
on either side; a text of several lines makes its row taller. A rule of equals signs parts the
header from the rows.
-/

namespace ConfigScript.Format.Table

/-- A cell: its lines. -/
abbrev Cell := List (List Char)

/-- A text as a cell. -/
def cellOf (s : String) : Cell := Text.splitOn '\n' s.toList

/-- The columns that a cell takes. -/
def cellWidth (c : Cell) : Nat := (c.map width).foldl max 0

/-- The widths of the columns that hold the cells of all rows. -/
def columnWidths : List (List Cell) → List Nat
  | [] => []
  | [row] => row.map cellWidth
  | row :: rows => (row.zip (columnWidths rows)).map fun (c, w) => max (cellWidth c) w

/-- A line filled with blanks, and a blank on either side. -/
def padded (w : Nat) (line : List Char) : List Char :=
  ' ' :: (line ++ List.replicate (w - width line) ' ' ++ [' '])

/-- Line `i` of a row. -/
def rowLine (widths : List Nat) (row : List Cell) (i : Nat) : List Char :=
  let parts := (widths.zip row).map fun (w, cell) => padded w (cell[i]?.getD [])
  '|' :: (Text.join ['|'] parts ++ ['|'])

/-- The lines of a row. -/
def rowLines (widths : List Nat) (row : List Cell) : List (List Char) :=
  (List.range ((row.map List.length).foldl max 0)).map (rowLine widths row)

/-- The line above and below the table. -/
def border (widths : List Nat) : List Char :=
  '+' :: (Text.join ['+'] (widths.map fun w => List.replicate (w + 2) '-') ++ ['+'])

/-- The line below the header. -/
def headerRule (widths : List Nat) : List Char :=
  '+' :: (Text.join ['='] (widths.map fun w => List.replicate (w + 2) '=') ++ ['+'])

/-- A table with a header. -/
def render (header : List String) (rows : List (List String)) : String :=
  let header := header.map cellOf
  let rows := rows.map (·.map cellOf)
  let widths := columnWidths (header :: rows)
  let lines :=
    border widths :: rowLines widths header ++ headerRule widths ::
      rows.flatMap (rowLines widths) ++ [border widths]
  String.ofList (Text.join ['\n'] lines)

end ConfigScript.Format.Table
