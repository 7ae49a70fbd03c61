import Propositional.Formula.Parse
import Propositional.Simplification
import Propositional.Table.Basic
import Propositional.Violation.Check
import Propositional.Violation.Wording

/-!
# Settings of an inquiry

Settings keep the limit on operators below the limit on depth: each operator adds at most one level
to a tree, so an expression that was let through is never too deep. `Settings.ofRequest` builds them
from what a request names.

This is `EngineConfig` of the Veritas specification (section 6) with its defaults. What is rejected
there at construction is a field here, so that settings in which the limits are the other way round
cannot be built.
-/

namespace Propositional

/-- What is asked of an inquiry, and how large an expression may be. -/
structure Settings where
  simplify : Bool := true
  caseSensitive : Bool := false
  order : RowOrder := .counting
  hide : Hiding := .nothing
  hideIntermediate : Bool := false
  language : Language := .english
  limits : Limits := {}
  maxDepth : Int := Formula.defaultMaxDepth
  maxSteps : Int := Simplification.defaultCap
  operators_lt_maxDepth : limits.operators < maxDepth := by decide

/-- Why a request comes to no settings. -/
inductive SettingsError where
  | unknownOrder (name : String)
  | unknownHiding (name : String)
  | unknownLanguage (code : String)
  | depthTooSmall (operators maxDepth : Int)
deriving DecidableEq

/-- The error in words; of a name that is no row order and no choice of rows, just the name. -/
def SettingsError.message : SettingsError → String
  | unknownOrder name => name
  | unknownHiding name => name
  | unknownLanguage code => Language.unknownMessage code
  | depthTooSmall operators maxDepth =>
    s!"max_operators ({operators}) must be below max_depth ({maxDepth})"

namespace Settings

/-- What a request may ask for; names are not looked up yet. -/
structure Request where
  simplify : Bool := true
  caseSensitive : Bool := false
  order : String := RowOrder.counting.name
  hide : String := Hiding.nothing.name
  hideIntermediate : Bool := false
  language : String := Language.english.code
  limits : Limits := {}
  maxDepth : Int := Formula.defaultMaxDepth
  maxSteps : Int := Simplification.defaultCap

/-- The settings for a request. Row order, hidden rows and language are looked up in this order, and
the limits are compared last. -/
def ofRequest (r : Request) : Except SettingsError Settings :=
  match RowOrder.ofName? r.order, Hiding.ofName? r.hide, Language.ofCode? r.language with
  | none, _, _ => .error (.unknownOrder r.order)
  | _, none, _ => .error (.unknownHiding r.hide)
  | _, _, none => .error (.unknownLanguage r.language)
  | some order, some hide, some language =>
    if h : r.limits.operators < r.maxDepth then
      .ok { r with order, hide, language, operators_lt_maxDepth := h }
    else .error (.depthTooSmall r.limits.operators r.maxDepth)

end Settings

end Propositional
