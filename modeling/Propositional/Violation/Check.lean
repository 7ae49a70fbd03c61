import Propositional.Formula.Traversal
import Propositional.Text.Classes
import Propositional.Token.Scan
import Propositional.Violation.Basic

/-!
# Checking an expression before it is parsed

`check` looks at a text in canonical spelling and reports the first fault, in this order: nothing
but blanks, an illegal character, a token out of place or an unpaired parenthesis, too many distinct
variables, operands or operators. Only the tokens are looked at, not a tree.

This is `validate` of the Veritas specification (section 4.2): `check` is check 0 and the order of
the others, `ofIllegal` is check 1, `ofStructure` check 2 and `ofSize` check 3.

* `Violation.Scan.step_operand` and its companions: what one token does, by its kind.
-/

namespace Propositional

/-- How large an expression may be. -/
structure Limits where
  /-- Distinct variables. -/
  names : Int := 12
  /-- Occurrences of variables and constants. -/
  operands : Int := 48
  /-- Occurrences of connectives, negation included. -/
  operators : Int := 96
deriving DecidableEq

namespace Violation

/-- What a scan over the tokens remembers: which kind of token may follow, and the number of
parentheses that are open. -/
structure Scan where
  expectsOperand : Bool
  opened : Nat
deriving DecidableEq

namespace Scan

/-- The scan before the first token. -/
def start : Scan := ⟨true, 0⟩

/-- The scan after one more token, or why the token cannot stand there. -/
def step (s : Scan) (t : Token) : Except Violation Scan :=
  if s.expectsOperand then
    match t.kind with
    | .name => .ok { s with expectsOperand := false }
    | .truth _ => .ok { s with expectsOperand := false }
    | .openParen => .ok { s with opened := s.opened + 1 }
    | .negation => .ok s
    | _ => .error (.misplaced t.text t.start)
  else
    match t.kind with
    | .binary _ => .ok { s with expectsOperand := true }
    | .closeParen =>
      match s.opened with
      | 0 => .error (.missing '(' t.start)
      | n + 1 => .ok { s with opened := n }
    | _ => .error (.misplaced t.text t.start)

section Step

variable {n : Nat} {t : Token}

theorem step_operand (h : t.kind.isOperand = true) : step ⟨true, n⟩ t = .ok ⟨false, n⟩ := by
  unfold step
  cases hk : t.kind <;> rw [hk] at h <;> first | rfl | cases h

theorem step_negation (h : t.kind = .negation) : step ⟨true, n⟩ t = .ok ⟨true, n⟩ := by
  simp only [step, h, if_true]

theorem step_openParen (h : t.kind = .openParen) : step ⟨true, n⟩ t = .ok ⟨true, n + 1⟩ := by
  simp only [step, h, if_true]

theorem step_binary {op : Connective} (h : t.kind = .binary op) :
    step ⟨false, n⟩ t = .ok ⟨true, n⟩ := by
  simp only [step, h, Bool.false_eq_true, if_false]

theorem step_closeParen (h : t.kind = .closeParen) :
    step ⟨false, n + 1⟩ t = .ok ⟨false, n⟩ := by
  simp only [step, h, Bool.false_eq_true, if_false]

theorem step_closeParen_zero (h : t.kind = .closeParen) :
    step ⟨false, 0⟩ t = .error (.missing '(' t.start) := by
  simp only [step, h, Bool.false_eq_true, if_false]

/-- What cannot stand where an operand is needed. -/
theorem step_true_eq_error
    (h : (∃ op, t.kind = .binary op) ∨ t.kind = .closeParen ∨ t.kind = .illegal) :
    step ⟨true, n⟩ t = .error (.misplaced t.text t.start) := by
  rcases h with ⟨op, h⟩ | h | h
  · simp only [step, h, if_true]
  · simp only [step, h, if_true]
  · simp only [step, h, if_true]

/-- What cannot stand after an operand. -/
theorem step_false_eq_error
    (h : t.kind.isOperand = true ∨ t.kind = .negation ∨ t.kind = .openParen ∨ t.kind = .illegal) :
    step ⟨false, n⟩ t = .error (.misplaced t.text t.start) := by
  rcases h with h | h | h | h
  · unfold step
    cases hk : t.kind <;> rw [hk] at h <;> first | rfl | cases h
  · simp only [step, h, Bool.false_eq_true, if_false]
  · simp only [step, h, Bool.false_eq_true, if_false]
  · simp only [step, h, Bool.false_eq_true, if_false]

/-- A token is refused for itself, or for the parenthesis that it closes. -/
theorem step_eq_error {s : Scan} {v : Violation} (h : s.step t = .error v) :
    v = .misplaced t.text t.start ∨ t.kind = .closeParen ∧ v = .missing '(' t.start := by
  unfold step at h
  split at h
  · split at h
    · cases h
    · cases h
    · cases h
    · cases h
    · exact Or.inl (Except.error.inj h).symm
  · split at h
    · cases h
    · rename_i hk
      split at h
      · exact Or.inr ⟨hk, (Except.error.inj h).symm⟩
      · cases h
    · exact Or.inl (Except.error.inj h).symm

end Step

/-- The scan after all the tokens, or why the first that is out of place cannot stand there. -/
def run : Scan → List Token → Except Violation Scan
  | s, [] => .ok s
  | s, t :: ts =>
    match s.step t with
    | .ok s' => s'.run ts
    | .error v => .error v

/-- What is missing if the text ends, at index `length`, after the scanned tokens. -/
def atEnd (s : Scan) (length : Nat) : Option Violation :=
  if 0 < s.opened then some (.missing ')' length)
  else if s.expectsOperand then some (.unexpectedEnd length)
  else none

end Scan

/-- The first illegal character among the tokens. -/
def ofIllegal (tokens : List Token) : Option Violation :=
  (tokens.find? (·.kind == .illegal)).map fun t => .misplaced t.text t.start

/-- The first token out of place, or what the end of a text of that length leaves open. -/
def ofStructure (tokens : List Token) (length : Nat) : Option Violation :=
  match Scan.start.run tokens with
  | .ok s => s.atEnd length
  | .error v => some v

/-- The distinct names among the tokens. -/
def names (tokens : List Token) : List (List Char) :=
  distinct ((tokens.filter (·.kind == .name)).map (·.text))

/-- The occurrences of variables and constants among the tokens. -/
def operandCount (tokens : List Token) : Nat := tokens.countP (·.kind.isOperand)

/-- The occurrences of connectives among the tokens, negation included. -/
def operatorCount (tokens : List Token) : Nat := tokens.countP (·.kind.isOperator)

/-- A count may reach its limit, but not pass it. -/
def exceeding (count : Nat) (limit : Int) : Option Violation :=
  if count > limit then some (.tooBig count limit) else none

/-- The first count past its limit: distinct names, then operands, then operators. -/
def ofSize (limits : Limits) (tokens : List Token) : Option Violation :=
  exceeding (names tokens).length limits.names <|>
    exceeding (operandCount tokens) limits.operands <|>
    exceeding (operatorCount tokens) limits.operators

/-- The first violation in a text, if there is one. -/
def check (limits : Limits) (text : List Char) : Option Violation :=
  if text.all Text.isBlank then some (.blank 0)
  else
    let tokens := Token.scan text
    ofIllegal tokens <|> ofStructure tokens text.length <|> ofSize limits tokens

end Violation

end Propositional
