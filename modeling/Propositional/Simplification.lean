import Propositional.Rule.Basic

/-!
# Simplification by rules, to the end or to a cap

Each step takes the first rule of a list that applies anywhere in the formula, and applies it at the
first node that matches, from the root down and from left to right. `Formula.simplify` repeats this
until no rule applies or the cap on steps is reached, and keeps every step. That no rule applies is
only noticed by one more attempt, so a run of exactly as many steps as the cap counts as stopped.

This is `simplify(tree, enabled, max_iterations)` of the Veritas specification (section 4.4). A run
that is not enabled is `Simplification.unchanged`.
-/

namespace Propositional

namespace Rule

/-- The formula with the first node that matches the rule replaced. -/
def applyFirst (rule : Rule) (f : Formula) : Option Formula :=
  match rule.apply f with
  | some g => some g
  | none =>
    match f with
    | .neg a => (applyFirst rule a).map .neg
    | .binary op l r =>
      match applyFirst rule l with
      | some l' => some (.binary op l' r)
      | none => (applyFirst rule r).map (.binary op l)
    | _ => none

/-- The first rule of the list that applies anywhere, with what it makes of the formula. -/
def firstOf : List Rule → Formula → Option (Rule × Formula)
  | [], _ => none
  | rule :: rules, f =>
    match rule.applyFirst f with
    | some g => some (rule, g)
    | none => firstOf rules f

end Rule

/-- One step of a simplification, with the whole formula before and after it. -/
structure Step where
  rule : Rule
  before : Formula
  after : Formula
deriving DecidableEq

/-- What a run of steps has come to. -/
structure Simplification where
  result : Formula
  steps : List Step
  /-- The run ended at the cap, not because no rule applied. -/
  stopped : Bool
deriving DecidableEq

namespace Simplification

/-- A formula that was left as it is. -/
def unchanged (f : Formula) : Simplification := ⟨f, [], false⟩

/-- A run of at most `n` steps. It counts as stopped as soon as no step is left, whether or not a
rule would still apply. -/
def run (rules : List Rule) : Nat → Formula → Simplification
  | 0, f => ⟨f, [], true⟩
  | n + 1, f =>
    match Rule.firstOf rules f with
    | none => unchanged f
    | some (rule, g) =>
      let rest := run rules n g
      { rest with steps := ⟨rule, f, g⟩ :: rest.steps }

/-- The cap where nothing else is asked for. -/
def defaultCap : Int := 1000

end Simplification

/-- The formula after at most `cap` steps; a cap below zero allows none. -/
def Formula.simplify (rules : List Rule) (cap : Int) (f : Formula) : Simplification :=
  Simplification.run rules cap.toNat f

/-- Simplifications with rules and caps of their own, each of what the one before has come to. -/
def Formula.simplifyInStages : List (List Rule × Int) → Formula → List Simplification
  | [], _ => []
  | (rules, cap) :: stages, f =>
    let run := f.simplify rules cap
    run :: simplifyInStages stages run.result

end Propositional
