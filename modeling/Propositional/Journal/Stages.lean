import Propositional.Formula.Parse
import Propositional.Journal.Event
import Propositional.Simplification
import Propositional.Spelling.Canonical
import Propositional.Table.Basic
import Propositional.Violation.Check

/-!
# The events of each stage

What the stages note about a piece of work, told from what goes into a stage and what comes out.
The stages are those of section 4 of the Veritas specification, and section 8 has each of them log.
-/

namespace Propositional

/-- Noted while a text is put into canonical spelling. -/
def Canonical.events (caseSensitive : Bool) (text : List Char)
    (outcome : Except UnknownWord Canonical) : List Event :=
  (if caseSensitive then []
    else [.lowered (String.ofList (folded caseSensitive text))]) ++
  match outcome with
  | .ok c => [.canonical (String.ofList c.text)]
  | .error _ => []

/-- Noted while tokens are scanned: the illegal characters. -/
def Token.events (tokens : List Token) : List Event :=
  (tokens.filter (·.kind == .illegal)).map fun t =>
    .illegalCharacter (String.ofList t.text) t.start

/-- Noted while a text is checked. A blank text is not scanned. -/
def Violation.events (text : List Char) (outcome : Option Violation) : List Event :=
  .checking (String.ofList text) ::
    (if text.all Text.isBlank then [] else Token.events (Token.scan text)) ++
  match outcome with
  | some v =>
    let place := match v.position? with
      | some p => toString p
      | none => "None"
    [.verdict false (v.kind.label ++ " at position " ++ place)]
  | none => [.verdict true ("Expression is legal: " ++ String.ofList text)]

/-- Noted while a text is parsed. The tokens after the one that is the error are not looked at. -/
def Formula.parseEvents (text : List Char) (maxDepth : Int) : List Event :=
  .parsing (String.ofList text) ::
  match ofTokens (Token.scan text) with
  | .ok f =>
    .parsed f.shape ::
      if f.depth > maxDepth then [] else [.measured f.size f.depth]
  | .error (.unexpectedToken t) => Token.events [t]
  | .error _ => []

/-- Noted while a formula is simplified with a cap on the steps. -/
def Simplification.events (cap : Int) (f : Formula) (s : Simplification) : List Event :=
  .simplifying f.render ::
    s.steps.map (fun step =>
      .ruleApplied step.rule.name step.before.render step.after.render) ++
    [if s.stopped then .stopped cap s.result.render else .fixpoint s.steps.length]

/-- Noted while the columns are tabulated. -/
def TruthTable.events (columns : List Formula) (outcome : Except Unassigned TruthTable) :
    List Event :=
  .tabulating (Formula.names columns) ::
  match outcome with
  | .ok t => [.tabulated t.rows.length t.columns.length]
  | .error _ => []

end Propositional
