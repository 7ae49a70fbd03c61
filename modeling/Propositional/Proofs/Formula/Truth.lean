import Propositional.Formula.Evaluate
import Propositional.Formula.Traversal

/-!
# The truth function of a formula

With every variable given a value nothing can fail, and it does not matter which operands are looked
at. `holds` is that total semantics, by recursion on the formula.

* `evaluate_neg_iff`, `evaluate_binary_iff`: where a truth value comes from.
* `evaluate_eq_holds`: evaluation has this value wherever the assignment covers the variables.
* `exists_evaluate`: so it has a value wherever the assignment covers the variables.
* `holds_congr`: only the variables of the formula matter.
* `Equivalent`: evaluated alike wherever all variables have values, that is, with the same truth
  function (`equivalent_iff`).
-/

namespace Propositional

/-- The truth function of the connective. -/
def Connective.combine : Connective → Bool → Bool → Bool
  | and, a, b => a && b
  | or, a, b => a || b
  | implies, a, b => !a || b

/-- What the left operand settles is what the two operands come to. -/
theorem Connective.settledBy_getD (op : Connective) (a b : Bool) :
    (op.settledBy a).getD b = op.combine a b := by
  cases op <;> cases a <;> rfl

namespace Formula

variable {s : Assignment} {b : Bool} {v w : String → Bool} {op : Connective} {a f g l r : Formula}

theorem evaluate_neg_iff : (neg a).evaluate s = .ok b ↔ a.evaluate s = .ok !b := by
  rw [evaluate]
  cases a.evaluate s with
  | error e => simp
  | ok c => cases c <;> cases b <;> simp

/-- The value of a connective comes from the left operand, or if that does not settle it, from the
right one. -/
theorem evaluate_binary_iff :
    (binary op l r).evaluate s = .ok b ↔
      ∃ c, l.evaluate s = .ok c ∧
        (op.settledBy c = some b ∨ op.settledBy c = none ∧ r.evaluate s = .ok b) := by
  rw [evaluate]
  cases l.evaluate s with
  | error e => simp
  | ok c => cases h : op.settledBy c <;> simp [h]

/-- Whether the formula is true if `v` gives the values of the variables. -/
def holds (v : String → Bool) : Formula → Bool
  | var x => v x
  | const b => b
  | neg a => !a.holds v
  | binary op l r => op.combine (l.holds v) (r.holds v)

/-- **Evaluation has the value of the truth function**, if the assignment agrees with `v` on the
variables of the formula. -/
theorem evaluate_eq_holds (h : ∀ x ∈ names [f], s x = some (v x)) :
    f.evaluate s = .ok (f.holds v) := by
  induction f with
  | var x => rw [evaluate, h x (mem_names_var.mpr rfl), holds]
  | const b => rfl
  | neg a ih => rw [evaluate, ih (forall_mem_names_neg.mp h), holds]
  | binary op l r ihl ihr =>
    obtain ⟨hl, hr⟩ := forall_mem_names_binary.mp h
    rw [evaluate, ihl hl, holds, ← op.settledBy_getD]
    cases hs : op.settledBy (l.holds v) with
    | some b => simp [hs]
    | none => simp [hs, ihr hr]

theorem evaluate_total (f : Formula) (v : String → Bool) :
    f.evaluate (fun x => some (v x)) = .ok (f.holds v) :=
  evaluate_eq_holds fun _ _ => rfl

/-- With all its variables covered a formula has a truth value. -/
theorem exists_evaluate (f : Formula) (h : ∀ x ∈ names [f], (s x).isSome) :
    ∃ b, f.evaluate s = .ok b := by
  refine ⟨_, evaluate_eq_holds (v := fun x => (s x).getD false) fun x hx => ?_⟩
  obtain ⟨b, hb⟩ := Option.isSome_iff_exists.mp (h x hx)
  rw [hb]
  rfl

theorem holds_congr (h : ∀ x ∈ names [f], v x = w x) : f.holds v = f.holds w := by
  have hw := evaluate_eq_holds (f := f) (s := fun x => some (v x)) (v := w)
    fun x hx => congrArg some (h x hx)
  exact Except.ok.inj ((f.evaluate_total v).symm.trans hw)

/-- Both formulas evaluate alike wherever all variables have values. -/
def Equivalent (f g : Formula) : Prop :=
  ∀ v : String → Bool, f.evaluate (fun x => some (v x)) = g.evaluate (fun x => some (v x))

theorem equivalent_iff : Equivalent f g ↔ ∀ v, f.holds v = g.holds v := by
  simp only [Equivalent, evaluate_total, Except.ok.injEq]

end Formula

end Propositional
