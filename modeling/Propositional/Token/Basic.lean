import Propositional.Formula.Basic

/-!
# Tokens

The pieces of an expression in canonical spelling. A token keeps its characters and the index at
which they start, so that a message can point at it.

The kinds are the terminals of the grammar in the Veritas specification (section 4.3), and one for
the `ERROR` tokens of section 4.2, check 1.
-/

namespace Propositional

/-- What a token is; `truth` is a constant in any case, and `illegal` a character of no token. -/
inductive Token.Kind where
  | name
  | truth (value : Bool)
  | negation
  | binary (op : Connective)
  | openParen
  | closeParen
  | illegal
deriving DecidableEq

/-- A piece of a text: what it is, its characters, and the index of the first of them. -/
structure Token where
  kind : Token.Kind
  text : List Char
  start : Nat
deriving DecidableEq

namespace Token.Kind

/-- The name of the kind in messages. -/
def label : Kind → String
  | name => "VARIABLE"
  | truth true => "TRUE"
  | truth false => "FALSE"
  | negation => "NOT"
  | binary .and => "AND"
  | binary .or => "OR"
  | binary .implies => "IMPLIES"
  | openParen => "LPAREN"
  | closeParen => "RPAREN"
  | illegal => "ERROR"

/-- A token that is a whole operand. -/
def isOperand : Kind → Bool
  | name => true
  | truth _ => true
  | _ => false

/-- A token that stands for a connective, negation included. -/
def isOperator : Kind → Bool
  | negation => true
  | binary _ => true
  | _ => false

end Token.Kind

end Propositional
