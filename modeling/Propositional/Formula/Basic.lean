/-!
# Propositional formulas

A formula is a variable, one of the two constants, a negation, or a connective with two operands.
Formulas are compared by structure, and a variable is its name.

These are the nodes of the expression tree in the Veritas specification (section 3): `Variable`,
`Constant` and `Not`, while `And`, `Or` and `Implies` are one constructor with the connective as its
argument.
-/

namespace Propositional

/-- The connectives of two operands. -/
inductive Connective where
  | and
  | or
  | implies
deriving DecidableEq

/-- A formula. What the connectives of two operands have in common is said once, of `binary`. -/
inductive Formula where
  | var (name : String)
  | const (value : Bool)
  | neg (operand : Formula)
  | binary (op : Connective) (left right : Formula)
deriving DecidableEq, Inhabited

namespace Formula

/-- The direct operands, left to right. -/
def children : Formula → List Formula
  | var _ => []
  | const _ => []
  | neg a => [a]
  | binary _ l r => [l, r]

/-- A formula with operands; the others are the leaves of a tree. -/
def isCompound : Formula → Bool
  | var _ => false
  | const _ => false
  | neg _ => true
  | binary .. => true

/-- The name of a variable; no other formula has one. -/
def name? : Formula → Option String
  | var x => some x
  | _ => none

/-- What a formula is at its root, in words. -/
def shape : Formula → String
  | var _ => "Variable"
  | const _ => "Constant"
  | neg _ => "Not"
  | binary .and _ _ => "And"
  | binary .or _ _ => "Or"
  | binary .implies _ _ => "Implies"

end Formula

end Propositional
