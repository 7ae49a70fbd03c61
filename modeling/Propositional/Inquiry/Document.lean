import Propositional.Inquiry.Basic
import Propositional.Json

/-!
# Answers as documents and as plain text

Every answer has the form of a JSON document. An answer that is no refusal can also be shown as
plain text: the expression, the numbered steps, what has become of it, and the table after an empty
line.

These are the `to_dict()` forms of the results in the Veritas specification (section 6), and what
the command line prints of a result.
-/

namespace Propositional

/-- A step with the whole formula before and after it. -/
def Step.document (s : Step) : Json :=
  .object [("rule", .text s.rule.name), ("before", .text s.before.render),
    ("after", .text s.after.render)]

/-- The line for a step with its number. -/
def Step.line (number : Nat) (s : Step) : String :=
  s!"  {number}. {s.rule.name}: {s.before} → {s.after}"

namespace TruthTable

/-- The columns of a table as they are written. -/
def headerDocument (t : TruthTable) : Json := .list (t.header.map .text)

/-- A table without its assignments: the first columns are the variables and show them. -/
def document (t : TruthTable) : Json :=
  .object [("variables", .list (t.names.map .text)), ("header", t.headerDocument),
    ("rows", .list (t.matrix.map fun values => .list (values.map .flag)))]

end TruthTable

namespace Inquiry

/-- A refusal with its kind. No part of an answer goes with it. -/
def Refusal.document (r : Refusal) : Json :=
  .object [("errorKind", .text r.kind.label), ("message", .text r.message)]

namespace Simplified

/-- The fields of an answer with a simplification, whether or not a table follows. -/
def fields (a : Simplified) : List (String × Json) :=
  [("before", .text a.before), ("after", .text a.after),
    ("operations", .list (a.steps.map Step.document))]

/-- An answer without a table. -/
def document (a : Simplified) : Json := .object a.fields

/-- The steps on a line each, numbered from `number` on. -/
def stepLines (number : Nat) : List Step → List String
  | [] => []
  | s :: steps => s.line number :: stepLines (number + 1) steps

/-- The expression as it was typed, the steps, and the simplified formula. -/
def lines (a : Simplified) : List String :=
  ("Expression: " ++ a.before) :: stepLines 1 a.steps ++ ["Simplified: " ++ a.after]

end Simplified

namespace SimplifiedTable

/-- The fields of the simplification, then those of the table. -/
def document (a : SimplifiedTable) : Json :=
  .object (a.fields ++ [("header", a.table.headerDocument), ("table", a.table.document)])

/-- The lines of the simplification, and the table after an empty line. -/
def lines (a : SimplifiedTable) : List String := a.toSimplified.lines ++ ["", a.table.text]

end SimplifiedTable

namespace Tabulated

/-- The formula as it is written, and its table. -/
def document (a : Tabulated) : Json :=
  .object [("expression", .text a.formula.render), ("header", a.table.headerDocument),
    ("table", a.table.document)]

/-- The table after an empty line. -/
def lines (a : Tabulated) : List String := ["", a.table.text]

end Tabulated

end Inquiry

end Propositional
