import Propositional.Inquiry.Settings
import Propositional.Journal.Logged
import Propositional.Journal.Stages

/-!
# Inquiries about a typed expression

An inquiry takes text as it was typed through all stages: canonical spelling, check, parse, and then
simplification, a table, or both. A text that does not pass the check is refused with a message that
points into the text as it was typed; that is an answer like others. A `Fault` is no answer.

These are the entry points `simplify`, `simplify_and_table` and `table` of the Veritas specification
(sections 1 and 7), and the results of section 6; `read` is what they have in common.

Out of scope here: the limits that an interpreter sets on its own account, on the depth of recursion
and on the length of an integer that it turns into text. Evaluating, rendering and rewriting recurse
to the depth of a tree, and wordings mention counts and limits; settings that allow very deep trees
or name huge limits can meet an interpreter's limits before those of `Settings`. Under the default
ones no formula that is read is deeper than 97.
-/

namespace Propositional.Inquiry

/-- What keeps an inquiry from an answer. -/
inductive Fault where
  | unknownWord (e : UnknownWord)
  /-- A violation is located where the canonical text has no character. -/
  | unknownPosition (position : Nat)
  | parse (e : ParseError)
  | unassigned (e : Unassigned)
deriving DecidableEq

/-- The fault in words. -/
def Fault.message : Fault → String
  | unknownWord e => e.word
  | unknownPosition position => s!"no character at position {position}"
  | parse e => e.message
  | unassigned e => e.message

/-- Why an expression is not answered. -/
structure Refusal where
  kind : Violation.Kind
  message : String
deriving DecidableEq

/-- The answer of `simplify`: the text as it was typed, and what has become of its formula. -/
structure Simplified where
  before : String
  simplification : Simplification

namespace Simplified

/-- The simplified formula. -/
def result (a : Simplified) : Formula := a.simplification.result

/-- The simplified formula as it is written. -/
def after (a : Simplified) : String := a.result.render

/-- The steps that have led to it. -/
def steps (a : Simplified) : List Step := a.simplification.steps

end Simplified

/-- The answer of `simplifyAndTabulate`: the table is that of the simplified formula. -/
structure SimplifiedTable extends Simplified where
  table : TruthTable

/-- The answer of `tabulate`: the formula as it was read, and its table. -/
structure Tabulated where
  formula : Formula
  table : TruthTable

/-! ## Stages -/

/-- The first stage: the text in canonical spelling. -/
def canonical (s : Settings) (text : String) : Logged Fault Canonical :=
  let outcome := Canonical.ofText s.caseSensitive text.toList
  ⟨outcome.mapError .unknownWord, Canonical.events s.caseSensitive text.toList outcome⟩

/-- The violation in the canonical text, located in the text as it was typed. -/
def violation (s : Settings) (c : Canonical) : Logged Fault (Option Violation) :=
  let found := Violation.check s.limits c.text
  let outcome := match found with
    | none => .ok none
    | some v =>
      match v.relocate fun i => c.offsets[i]? with
      | some moved => .ok (some moved)
      | none => .error (.unknownPosition (v.position?.getD 0))
  ⟨outcome, Violation.events c.text found⟩

/-- The formula of a canonical text. The check comes before, so an error at this stage is a
fault. -/
def parsed (s : Settings) (c : Canonical) : Logged Fault Formula :=
  ⟨(Formula.parse c.text s.maxDepth).mapError .parse, Formula.parseEvents c.text s.maxDepth⟩

/-- The formula that a typed text stands for, or why it is refused. -/
def read (s : Settings) (text : String) : Logged Fault (Except Refusal Formula) := do
  let c ← canonical s text
  match ← violation s c with
  | some v =>
    let message := v.message s.language
    Logged.note (.refused message)
    return .error ⟨v.kind, message⟩
  | none =>
    let f ← parsed s c
    return .ok f

/-- The formula simplified by all rules in turn, unless settings ask for it as it is. -/
def simplification (s : Settings) (f : Formula) : Logged Fault Simplification :=
  if s.simplify then
    let outcome := f.simplify Rule.catalog s.maxSteps
    ⟨.ok outcome, outcome.events s.maxSteps f⟩
  else pure (.unchanged f)

/-- The table of a formula and its parts. -/
def table (s : Settings) (f : Formula) : Logged Fault TruthTable :=
  let columns := f.columns s.hideIntermediate
  let outcome := TruthTable.build columns s.hide s.order
  ⟨outcome.mapError .unassigned, TruthTable.events columns outcome⟩

/-! ## Inquiries -/

/-- An option that is on or off, as events show it. -/
def flag (name : String) (value : Bool) : String × OptionValue := (name, .flag value)

/-- The settings that simplification looks at, as events show them. -/
def simplifyOptions (s : Settings) : List (String × OptionValue) :=
  [flag "simplify" s.simplify, flag "caseSensitive" s.caseSensitive]

/-- The settings that tables look at, as events show them. -/
def tableOptions (s : Settings) : List (String × OptionValue) :=
  [("sort", .text s.order.name), ("hide", .text s.hide.name),
    flag "hideIntermediate" s.hideIntermediate]

/-- The language of messages, as events show it. -/
def languageOption (s : Settings) : List (String × OptionValue) :=
  [("lang", .text s.language.code)]

/-- What a typed text is simplified to. -/
def simplify (s : Settings) (text : String) : Logged Fault (Except Refusal Simplified) := do
  Logged.note (.received "Simplify" text (simplifyOptions s ++ languageOption s))
  match ← read s text with
  | .error r => return .error r
  | .ok f =>
    let run ← simplification s f
    Logged.note (.simplified run.result.render)
    return .ok ⟨text, run⟩

/-- What a typed text is simplified to, with a table of that. -/
def simplifyAndTabulate (s : Settings) (text : String) :
    Logged Fault (Except Refusal SimplifiedTable) := do
  Logged.note (.received "Simplify and table" text
    (simplifyOptions s ++ tableOptions s ++ languageOption s))
  match ← read s text with
  | .error r => return .error r
  | .ok f =>
    let run ← simplification s f
    let t ← table s run.result
    Logged.note (.simplified run.result.render)
    return .ok ⟨⟨text, run⟩, t⟩

/-- A table of a typed text, which is not simplified. -/
def tabulate (s : Settings) (text : String) : Logged Fault (Except Refusal Tabulated) := do
  Logged.note (.received "Table" text (tableOptions s ++ languageOption s))
  match ← read s text with
  | .error r => return .error r
  | .ok f =>
    let t ← table s f
    Logged.note (.tableText t.text)
    return .ok ⟨f, t⟩

end Propositional.Inquiry
