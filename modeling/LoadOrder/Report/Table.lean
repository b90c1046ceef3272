/-!
# Tables with a frame

Two columns in a rounded frame: left-aligned cells with a blank on each side, and a rule below the
header.  A column is as wide as its widest cell.
-/

namespace LoadOrder

/-- A table of two columns. -/
structure ReportTable where
  header : String × String
  rows : List (String × String)

namespace ReportTable

/-- The width of a column with some cells. -/
def width (cells : List String) : Nat := (cells.map String.length).foldl max 0

/-- A text followed by blanks up to a width. -/
def pad (width : Nat) (text : String) : String :=
  text ++ String.ofList (List.replicate (width - text.length) ' ')

/-- A line of the frame, from its left, middle and right corners and the widths of the columns. -/
def rule (left middle right : String) (first second : Nat) : String :=
  let bar (width : Nat) := String.ofList (List.replicate (width + 2) '─')
  left ++ bar first ++ middle ++ bar second ++ right

/-- A line of cells. -/
def line (first second : Nat) (cells : String × String) : String :=
  "│ " ++ pad first cells.1 ++ " │ " ++ pad second cells.2 ++ " │"

/-- The lines of a table; a table without rows has none. -/
def lines (t : ReportTable) : List String :=
  if t.rows.isEmpty then []
  else
    let all := t.header :: t.rows
    let first := width (all.map Prod.fst)
    let second := width (all.map Prod.snd)
    rule "╭" "┬" "╮" first second :: line first second t.header ::
      rule "├" "┼" "┤" first second :: t.rows.map (line first second) ++
      [rule "╰" "┴" "╯" first second]

/-- Numbers with what they count. -/
def metrics (rows : List (String × String)) : ReportTable := ⟨("Metric", "Value"), rows⟩

/-- Files with their dependencies. -/
def dependencies (rows : List (String × String)) : ReportTable := ⟨("File", "Depends on"), rows⟩

/-- Constants with the files that mention them. -/
def externals (rows : List (String × String)) : ReportTable :=
  ⟨("Constant", "Referenced by"), rows⟩

end ReportTable

end LoadOrder
