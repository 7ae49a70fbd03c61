/-!
# What can be wrong with an expression

`Violation` lists the faults for which an expression is refused. A violation that is located knows
an index into the text; `relocate` carries that index over to another text.

These are `ValidationError` and `ErrorKind` of the Veritas specification (sections 4.2 and 7). There
an error is one record, of which each kind of fault fills in some fields; `position?`, `text?`,
`count?` and `limit?` are these fields.
-/

namespace Propositional

/-- The kinds under which violations are reported. -/
inductive Violation.Kind where
  | invalidCharacter
  | missingCharacter
  | tooBigExpression
deriving DecidableEq

namespace Violation.Kind

/-- The name of the kind in results and events. -/
def label : Kind → String
  | invalidCharacter => "InvalidCharacter"
  | missingCharacter => "MissingCharacter"
  | tooBigExpression => "TooBigExpression"

/-- All kinds. -/
def all : List Kind := [invalidCharacter, missingCharacter, tooBigExpression]

/-- The kind of that name. -/
def ofLabel? (s : String) : Option Kind := all.find? (·.label == s)

end Violation.Kind

/-- Something for which an expression is refused. -/
inductive Violation where
  /-- There is nothing but blanks. -/
  | blank (position : Nat)
  /-- A character or token that cannot stand where it does. -/
  | misplaced (text : List Char) (position : Nat)
  /-- The text ends where an operand is needed. -/
  | unexpectedEnd (position : Nat)
  /-- A parenthesis without its partner; `paren` is the partner. -/
  | missing (paren : Char) (position : Nat)
  /-- Something was counted past its limit. -/
  | tooBig (count : Nat) (limit : Int)
deriving DecidableEq

namespace Violation

/-- The kind under which it is reported. A text that ends too early is said to have an invalid
character, and a blank one to miss one. -/
def kind : Violation → Kind
  | blank _ => .missingCharacter
  | misplaced .. => .invalidCharacter
  | unexpectedEnd _ => .invalidCharacter
  | missing .. => .missingCharacter
  | tooBig .. => .tooBigExpression

/-- The index at which the fault is, unless the expression as a whole is too big. -/
def position? : Violation → Option Nat
  | blank p => some p
  | misplaced _ p => some p
  | unexpectedEnd p => some p
  | missing _ p => some p
  | tooBig .. => none

/-- The text that is wrong or missing. -/
def text? : Violation → Option (List Char)
  | misplaced cs _ => some cs
  | missing c _ => some [c]
  | _ => none

/-- What was counted past its limit. -/
def count? : Violation → Option Nat
  | tooBig n _ => some n
  | _ => none

/-- The limit that was exceeded. -/
def limit? : Violation → Option Int
  | tooBig _ limit => some limit
  | _ => none

/-- The violation with its position looked up by `f`; `none` if `f` does not know the position. -/
def relocate (f : Nat → Option Nat) : Violation → Option Violation
  | blank p => (f p).map blank
  | misplaced cs p => (f p).map (misplaced cs)
  | unexpectedEnd p => (f p).map unexpectedEnd
  | missing c p => (f p).map (missing c)
  | tooBig n limit => some (tooBig n limit)

end Violation

end Propositional
