import Propositional.Formula.Render
import Propositional.Proofs.Formula.Count
import Propositional.Token.Basic

/-!
# The stratified grammar

The unambiguous grammar of expressions, with one nonterminal for each strength of binding:

    implication := disjunction | disjunction ➔ implication
    disjunction := conjunction | disjunction ⋁ conjunction
    conjunction := negation    | conjunction ⋀ negation
    negation    := atom        | ¬ negation
    atom        := name | True | False | ( implication )

`Derives L ts f` holds if the nonterminal `L` derives the tokens `ts`, and `f` is the formula that
the productions build; parentheses build nothing.

* `Derives.weaken`: what a stratum derives is also derived by the looser ones.
* `Derives.binary`: the three productions with a connective as one rule, through the strata that the
  connective takes on its left and on its right.
* `Derives.legal`: no illegal character is derived.
* `Derives.leaves_eq`, `Derives.operatorCount_eq`: the operands among the tokens are the leaves of
  the formula, in their order, and the operators are its other nodes.
-/

namespace Propositional

/-- The nonterminals, from the loosest to the tightest. -/
inductive Stratum where
  | implication
  | disjunction
  | conjunction
  | negation
  | atom
deriving DecidableEq

/-- The tokens derive the formula at a stratum. A stratum for each connective takes the place of
precedences: an operand belongs to a stratum that binds as tightly as its side asks for. -/
inductive Derives : Stratum → List Token → Formula → Prop
  | implies {ts us : List Token} {t : Token} {f g : Formula} :
      Derives .disjunction ts f → t.kind = .binary .implies → Derives .implication us g →
        Derives .implication (ts ++ t :: us) (.binary .implies f g)
  | ofDisjunction {ts : List Token} {f : Formula} :
      Derives .disjunction ts f → Derives .implication ts f
  | or {ts us : List Token} {t : Token} {f g : Formula} :
      Derives .disjunction ts f → t.kind = .binary .or → Derives .conjunction us g →
        Derives .disjunction (ts ++ t :: us) (.binary .or f g)
  | ofConjunction {ts : List Token} {f : Formula} :
      Derives .conjunction ts f → Derives .disjunction ts f
  | and {ts us : List Token} {t : Token} {f g : Formula} :
      Derives .conjunction ts f → t.kind = .binary .and → Derives .negation us g →
        Derives .conjunction (ts ++ t :: us) (.binary .and f g)
  | ofNegation {ts : List Token} {f : Formula} :
      Derives .negation ts f → Derives .conjunction ts f
  | neg {ts : List Token} {t : Token} {f : Formula} :
      t.kind = .negation → Derives .negation ts f → Derives .negation (t :: ts) (.neg f)
  | ofAtom {ts : List Token} {f : Formula} :
      Derives .atom ts f → Derives .negation ts f
  | name {t : Token} : t.kind = .name → Derives .atom [t] (.var (String.ofList t.text))
  | truth {t : Token} {b : Bool} : t.kind = .truth b → Derives .atom [t] (.const b)
  | paren {ts : List Token} {t u : Token} {f : Formula} :
      t.kind = .openParen → Derives .implication ts f → u.kind = .closeParen →
        Derives .atom (t :: ts ++ [u]) f

/-! ## The order of the strata -/

namespace Stratum

/-- The strength with which a stratum binds, on the scale of `Connective.precedence`. -/
def strength : Stratum → Nat
  | implication => 1
  | disjunction => 2
  | conjunction => 3
  | negation => 4
  | atom => 5

/-- The next looser stratum. -/
def looser : Stratum → Stratum
  | implication => implication
  | disjunction => implication
  | conjunction => disjunction
  | negation => conjunction
  | atom => negation

variable {L M : Stratum}

theorem eq_of_strength_eq (h : L.strength = M.strength) : L = M := by
  cases L <;> cases M <;> first | rfl | cases h

theorem one_le_strength (L : Stratum) : 1 ≤ L.strength := by
  cases L <;> decide

theorem strength_looser (h : M.strength < L.strength) :
    L.strength = L.looser.strength + 1 := by
  have hM := M.one_le_strength
  cases L with
  | implication => exact absurd h (Nat.not_lt.mpr hM)
  | _ => rfl

end Stratum

variable {L M : Stratum} {ts us : List Token} {t : Token} {f g : Formula}

theorem Derives.looser (h : Derives L ts f) : Derives L.looser ts f := by
  cases L with
  | implication => exact h
  | disjunction => exact .ofDisjunction h
  | conjunction => exact .ofConjunction h
  | negation => exact .ofNegation h
  | atom => exact .ofAtom h

/-- **A stratum derives all that a tighter one does.** -/
theorem Derives.weaken (h : Derives L ts f) (hM : M.strength ≤ L.strength) : Derives M ts f := by
  -- one production at a time; the induction is on how far `M` is below `L`
  induction hn : L.strength - M.strength generalizing L with
  | zero =>
    obtain rfl : L = M := Stratum.eq_of_strength_eq (by omega)
    exact h
  | succ n ih =>
    have hL := Stratum.strength_looser (L := L) (M := M) (by omega)
    exact ih h.looser (by omega) (by omega)

/-! ## The connectives -/

namespace Connective

/-- The stratum of the formulas with this connective at the root. -/
def stratum : Connective → Stratum
  | and => .conjunction
  | or => .disjunction
  | implies => .implication

/-- What a connective takes as its left operand without parentheses. -/
def leftStratum : Connective → Stratum
  | and => .conjunction
  | or => .disjunction
  | implies => .disjunction

/-- What a connective takes as its right operand without parentheses. -/
def rightStratum : Connective → Stratum
  | and => .negation
  | or => .conjunction
  | implies => .implication

theorem strength_stratum (op : Connective) : op.stratum.strength = op.precedence := by
  cases op <;> rfl

theorem one_le_precedence (op : Connective) : 1 ≤ op.precedence := by
  cases op <;> decide

theorem stratum_le_rightStratum (op : Connective) :
    op.stratum.strength ≤ op.rightStratum.strength := by
  cases op <;> decide

theorem rightStratum_le_negation (op : Connective) :
    op.rightStratum.strength ≤ Stratum.negation.strength := by
  cases op <;> decide

end Connective

theorem Derives.binary {op : Connective} (hf : Derives op.leftStratum ts f)
    (ht : t.kind = .binary op) (hg : Derives op.rightStratum us g) :
    Derives op.stratum (ts ++ t :: us) (.binary op f g) := by
  cases op with
  | and => exact .and hf ht hg
  | or => exact .or hf ht hg
  | implies => exact .implies hf ht hg

/-! ## The tokens of a derivation -/

theorem Derives.legal (h : Derives L ts f) : ∀ t ∈ ts, t.kind ≠ .illegal := by
  induction h with
  | ofDisjunction _ ih | ofConjunction _ ih | ofNegation _ ih | ofAtom _ ih => exact ih
  | implies _ ht _ ihf ihg | or _ ht _ ihf ihg | and _ ht _ ihf ihg =>
    intro u hu
    rcases List.mem_append.mp hu with hu | hu
    · exact ihf u hu
    · rcases List.mem_cons.mp hu with rfl | hu
      · simp [ht]
      · exact ihg u hu
  | neg ht _ ih =>
    intro u hu
    rcases List.mem_cons.mp hu with rfl | hu
    · simp [ht]
    · exact ih u hu
  | name ht | truth ht =>
    intro u hu
    obtain rfl := List.mem_singleton.mp hu
    simp [ht]
  | paren ht _ hu' ih =>
    intro u hu
    rcases List.mem_append.mp hu with hu | hu
    · rcases List.mem_cons.mp hu with rfl | hu
      · simp [ht]
      · exact ih u hu
    · obtain rfl := List.mem_singleton.mp hu
      simp [hu']

/-- What a token stands for if it is a whole operand. -/
def Token.leaf? (t : Token) : Option Formula :=
  match t.kind with
  | .name => some (.var (String.ofList t.text))
  | .truth b => some (.const b)
  | _ => none

theorem Token.isSome_leaf? (t : Token) : t.leaf?.isSome = t.kind.isOperand := by
  unfold leaf?
  cases t.kind <;> rfl

theorem Token.name?_leaf? (t : Token) :
    t.leaf?.bind Formula.name? = if t.kind == .name then some (String.ofList t.text) else none := by
  unfold leaf?
  cases t.kind <;> rfl

/-- **The operands among the tokens are the leaves of the formula**, in the same order; parentheses
leave no trace in it. -/
theorem Derives.leaves_eq (h : Derives L ts f) : f.leaves = ts.filterMap Token.leaf? := by
  induction h with
  | ofDisjunction _ ih | ofConjunction _ ih | ofNegation _ ih | ofAtom _ ih => exact ih
  | implies _ ht _ ihf ihg | or _ ht _ ihf ihg | and _ ht _ ihf ihg =>
    simp [Token.leaf?, ht, ihf, ihg]
  | neg ht _ ih => simp [Token.leaf?, ht, ih]
  | name ht | truth ht => simp [Token.leaf?, ht]
  | paren ht _ hu ih => simp [Token.leaf?, ht, hu, ih]

/-- The names of a derived formula are those among its tokens. -/
theorem Derives.mem_names_iff {x : String} (h : Derives L ts f) :
    x ∈ Formula.names [f] ↔ ∃ t ∈ ts, t.kind = .name ∧ String.ofList t.text = x := by
  rw [Formula.names_eq_distinct_leaves, mem_distinct, h.leaves_eq, List.filterMap_filterMap,
    List.mem_filterMap]
  simp [Token.name?_leaf?]

theorem Derives.leafCount_eq (h : Derives L ts f) :
    f.leafCount = ts.countP (·.kind.isOperand) := by
  rw [Formula.leafCount, h.leaves_eq, List.length_filterMap_eq_countP]
  simp only [Token.isSome_leaf?]

/-- **The operators among the tokens are the other nodes of the formula.** -/
theorem Derives.operatorCount_eq (h : Derives L ts f) :
    f.operatorCount = ts.countP (·.kind.isOperator) := by
  induction h with
  | ofDisjunction _ ih | ofConjunction _ ih | ofNegation _ ih | ofAtom _ ih => exact ih
  | implies _ ht _ ihf ihg | or _ ht _ ihf ihg | and _ ht _ ihf ihg =>
    simp only [Formula.operatorCount_binary, ihf, ihg, List.countP_append, List.countP_cons, ht,
      Token.Kind.isOperator, if_true]
    omega
  | neg ht _ ih =>
    simp only [Formula.operatorCount_neg, ih, List.countP_cons, ht, Token.Kind.isOperator, if_true]
  | name ht | truth ht => simp [ht, Token.Kind.isOperator]
  | paren ht _ hu ih => simp [ih, ht, hu, Token.Kind.isOperator]

end Propositional
