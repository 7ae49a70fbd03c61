import Propositional.Formula.Basic

/-!
# Laws that make a formula simpler

A rule looks at one node, its operands and theirs, and gives the formula that replaces the node, or
nothing if the law does not apply. `⋀` and `⋁` are treated alike through the constant that changes
nothing (`neutral?`) and the connective that each is exchanged with (`dual`).

`Rule.catalog` is the catalog of the Veritas specification (section 4.4), laws 1 to 9. A law that is
stated there for `⋀` and dually for `⋁` is one case of `applyLattice`.
-/

namespace Propositional

namespace Connective

/-- The constant that leaves the other operand as it is; `➔` has none on both sides. -/
def neutral? : Connective → Option Bool
  | and => some true
  | or => some false
  | implies => none

/-- `⋀` and `⋁` exchanged. `➔` has no partner among the connectives and stays. -/
def dual : Connective → Connective
  | and => or
  | or => and
  | implies => implies

theorem neutral?_dual (op : Connective) : op.dual.neutral? = op.neutral?.map not := by
  cases op <;> rfl

theorem neutral?_injective : Function.Injective neutral? := by
  intro op op' h
  cases op <;> cases op' <;> first | rfl | cases h

end Connective

/-- The laws by which a formula is simplified. -/
inductive Rule where
  | implicationElimination
  | doubleNegation
  | negatedConstant
  | complement
  | annihilation
  | identity
  | idempotence
  | absorption
  | deMorgan
deriving DecidableEq

namespace Rule

/-- All rules, in the order in which they are tried. -/
def catalog : List Rule := [implicationElimination, doubleNegation, negatedConstant, complement,
  annihilation, identity, idempotence, absorption, deMorgan]

/-- The name of the law in steps and events. -/
def name : Rule → String
  | implicationElimination => "Implication elimination"
  | doubleNegation => "Double negation"
  | negatedConstant => "Negated constant"
  | complement => "Complement law"
  | annihilation => "Annihilation law"
  | identity => "Identity law"
  | idempotence => "Idempotent law"
  | absorption => "Absorption law"
  | deMorgan => "De Morgan's law"

/-- The rule of that name. -/
def ofName? (s : String) : Option Rule := catalog.find? (·.name == s)

/-- One of the formulas is the negation of the other. -/
def opposed (a b : Formula) : Bool := a = .neg b || b = .neg a

/-- `inner` is a `dual` combination with `outer` as one of its operands. -/
def absorbs (op : Connective) (outer inner : Formula) : Bool :=
  match inner with
  | .binary op' a b => op' = op.dual && (outer = a || outer = b)
  | _ => false

/-- What the rule makes of `l op r`, where `unit` is neutral for `op`. -/
def applyLattice (rule : Rule) (op : Connective) (unit : Bool) (l r : Formula) : Option Formula :=
  match rule with
  | complement => if opposed l r then some (.const !unit) else none
  | annihilation => if l = .const !unit || r = .const !unit then some (.const !unit) else none
  | identity => if r = .const unit then some l else if l = .const unit then some r else none
  | idempotence => if l = r then some l else none
  | absorption => if absorbs op l r then some l else if absorbs op r l then some r else none
  | _ => none

/-- What the rule makes of `¬ a`. -/
def applyNegation (rule : Rule) (a : Formula) : Option Formula :=
  match rule, a with
  | doubleNegation, .neg b => some b
  | negatedConstant, .const b => some (.const !b)
  | deMorgan, .binary .and (.neg b) (.neg c) => some (.binary .or b c)
  | deMorgan, .binary .or (.neg b) (.neg c) => some (.binary .and b c)
  | _, _ => none

/-- The formula that replaces `f`, if the rule applies at its root. -/
def apply (rule : Rule) (f : Formula) : Option Formula :=
  match f with
  | .neg a => rule.applyNegation a
  | .binary op l r =>
    match op.neutral? with
    | some unit => rule.applyLattice op unit l r
    | none => if rule = implicationElimination then some (.binary .or (.neg l) r) else none
  | _ => none

end Rule

end Propositional
