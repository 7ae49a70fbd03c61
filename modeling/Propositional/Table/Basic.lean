import Propositional.Formula.Evaluate
import Propositional.Formula.Render
import Propositional.Formula.Traversal

/-!
# Truth tables

A table has formulas as columns and a row for every assignment of their variables, in counting
order: all variables false first, and the last variable changes fastest. The last column is the
result. Rows can be hidden or ordered by their result; their content stays what it is.

This is `build_table` of the Veritas specification (section 4.5, steps 1 to 5), with `TruthTable` as
in section 3. Step 6, the choice of columns, is `Formula.columns`.
-/

namespace Propositional

/-- In which order the rows come. -/
inductive RowOrder where
  | counting
  | trueFirst
  | falseFirst
deriving DecidableEq

namespace RowOrder

/-- The name by which settings ask for the order. -/
def name : RowOrder → String
  | counting => "DEFAULT"
  | trueFirst => "TRUE_FIRST"
  | falseFirst => "FALSE_FIRST"

/-- All orders. -/
def all : List RowOrder := [counting, trueFirst, falseFirst]

/-- The order of that name. -/
def ofName? (s : String) : Option RowOrder := all.find? (·.name == s)

/-- The result whose rows come first. -/
def leading? : RowOrder → Option Bool
  | counting => none
  | trueFirst => some true
  | falseFirst => some false

end RowOrder

/-- Which rows are left out. -/
inductive Hiding where
  | nothing
  | whereTrue
  | whereFalse
deriving DecidableEq

namespace Hiding

/-- The name by which settings ask for the rows to be left out. -/
def name : Hiding → String
  | nothing => "NONE"
  | whereTrue => "TRUE"
  | whereFalse => "FALSE"

/-- All choices of rows to leave out. -/
def all : List Hiding := [nothing, whereTrue, whereFalse]

/-- The choice of that name. -/
def ofName? (s : String) : Option Hiding := all.find? (·.name == s)

/-- The result whose rows are left out. -/
def hidden? : Hiding → Option Bool
  | nothing => none
  | whereTrue => some true
  | whereFalse => some false

end Hiding

/-- A row of a table: truth values for the variables, and what the columns come to under them. -/
structure TruthTable.Row where
  assignment : List (String × Bool)
  /-- One value for each column. -/
  values : List Bool
deriving DecidableEq

/-- A table as it is shown: rows that are hidden are not part of it, the others have their order. -/
structure TruthTable where
  names : List String
  columns : List Formula
  rows : List TruthTable.Row
deriving DecidableEq

namespace TruthTable

/-- The value in the last column, if there is a column. -/
def Row.result? (row : Row) : Option Bool := row.values.getLast?

/-- All assignments of the variables in counting order; the first variable counts most. -/
def assignments : List String → List (List (String × Bool))
  | [] => [[]]
  | x :: xs =>
    (assignments xs).map ((x, false) :: ·) ++ (assignments xs).map ((x, true) :: ·)

/-- The row for an assignment; a variable that it leaves open is the error. -/
def Row.of (columns : List Formula) (assignment : List (String × Bool)) :
    Except Unassigned Row := do
  let values ← columns.mapM (·.evaluate (Assignment.ofList assignment))
  return ⟨assignment, values⟩

/-- The rows whose result is not the hidden one. -/
def visible (hide : Hiding) (rows : List Row) : List Row :=
  match hide.hidden? with
  | none => rows
  | some b => rows.filter fun row => row.result? ≠ some b

/-- The rows with the leading result, then the others; in both the order stays. -/
def ordered (order : RowOrder) (rows : List Row) : List Row :=
  match order.leading? with
  | none => rows
  | some b =>
    (rows.filter fun row => row.result? = some b) ++ rows.filter fun row => row.result? ≠ some b

/-- The table of the columns. Rows are hidden first and ordered then. -/
def build (columns : List Formula) (hide : Hiding) (order : RowOrder) :
    Except Unassigned TruthTable := do
  let names := Formula.names columns
  let rows ← (assignments names).mapM (Row.of columns)
  return ⟨names, columns, ordered order (visible hide rows)⟩

/-- The columns as they are written. -/
def header (t : TruthTable) : List String := t.columns.map Formula.render

/-- The truth values without the assignments, row by row. -/
def matrix (t : TruthTable) : List (List Bool) := t.rows.map (·.values)

/-- A truth value as a cell shows it. -/
def letter (b : Bool) : Char := if b then 'T' else 'F'

/-- Cells side by side in a line. -/
def joinCells (cells : List String) : String := String.intercalate " | " cells

/-- The table as lines of cells, the header first. -/
def text (t : TruthTable) : String :=
  String.intercalate "\n" (joinCells t.header ::
    t.matrix.map fun values => joinCells (values.map fun b => (letter b).toString))

end TruthTable

end Propositional
