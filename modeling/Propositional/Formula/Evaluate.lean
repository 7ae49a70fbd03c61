import Propositional.Formula.Basic

/-!
# Truth values

The truth value of a formula under an assignment that may leave variables open. Operands are
looked at from left to right, and the right one only if the left one does not settle the value; the
first open variable that is met is the error.

This is `evaluate` with the truth functions of the Veritas specification (section 4.5, step 3). A
table asks for full assignments only, but `evaluate` takes any, and then the error tells in which
order operands are looked at.
-/

namespace Propositional

/-- A truth value for some of the variables. -/
abbrev Assignment := String → Option Bool

/-- The assignment that gives each listed variable its first listed value. -/
def Assignment.ofList (pairs : List (String × Bool)) : Assignment := fun x => pairs.lookup x

/-- A variable was met that has no truth value. -/
structure Unassigned where
  name : String
deriving DecidableEq

/-- What is reported of an open variable. -/
def Unassigned.message (e : Unassigned) : String :=
  s!"No truth value assigned to variable '{e.name}'"

/-- The value that a left operand settles on its own, if it does. -/
def Connective.settledBy : Connective → Bool → Option Bool
  | and, false => some false
  | or, true => some true
  | implies, false => some true
  | _, _ => none

namespace Formula

/-- The truth value of a formula, or the first open variable that was met on the way to it. -/
def evaluate (s : Assignment) : Formula → Except Unassigned Bool
  | var x =>
    match s x with
    | some b => .ok b
    | none => .error ⟨x⟩
  | const b => .ok b
  | neg a =>
    match evaluate s a with
    | .ok b => .ok !b
    | .error e => .error e
  | binary op l r =>
    match evaluate s l with
    | .ok b =>
      match op.settledBy b with
      | some value => .ok value
      | none => evaluate s r
    | .error e => .error e

end Formula

end Propositional
