import Propositional.Formula.Basic

/-!
# Formulas as text

A formula is written with the symbols `¬ ⋀ ⋁ ➔` and the fewest parentheses. An operand is put in
parentheses if it binds weaker than the connective around it, or equally strong on the side to
which the connective does not group: `⋀` and `⋁` group to the left, `➔` to the right.

This is `str(expr)` of the Veritas specification (section 3).
-/

namespace Propositional

namespace Connective

/-- The symbol with which the connective is written. -/
def symbol : Connective → Char
  | and => '⋀'
  | or => '⋁'
  | implies => '➔'

/-- How strongly the connective binds its operands; a negation has 4 and a leaf 5. -/
def precedence : Connective → Nat
  | implies => 1
  | or => 2
  | and => 3

/-- Whether `a ∘ b ∘ c` is `a ∘ (b ∘ c)`. -/
def groupsRight : Connective → Bool
  | implies => true
  | _ => false

end Connective

/-- The symbol of negation. -/
def negationSymbol : Char := '¬'

namespace Formula

/-- How strongly the root of a formula binds: a connective by its own precedence, a leaf
strongest. -/
def precedence : Formula → Nat
  | var _ => 5
  | const _ => 5
  | neg _ => 4
  | binary op _ _ => op.precedence

/-- Whether `f` needs parentheses as the left operand of `op`. -/
def wrapsLeft (op : Connective) (f : Formula) : Bool :=
  f.precedence < op.precedence || (op.groupsRight && f.precedence == op.precedence)

/-- Whether `f` needs parentheses as the right operand of `op`. -/
def wrapsRight (op : Connective) (f : Formula) : Bool :=
  f.precedence < op.precedence || (!op.groupsRight && f.precedence == op.precedence)

/-- The text, in parentheses if they are needed. -/
def wrap (needed : Bool) (cs : List Char) : List Char :=
  if needed then '(' :: cs ++ [')'] else cs

/-- How a constant is written. -/
def constantName : Bool → String
  | true => "True"
  | false => "False"

/-- The characters of the written formula, with parentheses where an operand needs them. -/
def chars : Formula → List Char
  | var x => x.toList
  | const b => (constantName b).toList
  | neg a => negationSymbol :: wrap (a.precedence < 4) a.chars
  | binary op l r => wrap (wrapsLeft op l) l.chars ++ op.symbol :: wrap (wrapsRight op r) r.chars

/-- The written formula. -/
def render (f : Formula) : String := String.ofList f.chars

instance : ToString Formula := ⟨render⟩

end Formula

end Propositional
