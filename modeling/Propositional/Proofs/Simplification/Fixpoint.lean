import Propositional.Proofs.Formula.Count
import Propositional.Proofs.Simplification.Step

/-!
# A run ends where no law applies

Only the elimination of an implication makes a formula larger, and the implication is gone then. So
each step takes something off the weight of the formula, and a run whose cap is at least the weight
is never stopped.

* `Pays`: an implication goes with every node that is added. `Rule.pays_of_applyFirst` shows it for
  a step, which so makes the weight smaller (`Pays.weight_lt`).
* `length_steps_add_weight_le`: a run has at most as many steps as it takes off the weight.
* `stopped_eq_false_of_weight_le`: with a cap from the weight on a run is not stopped.
* `IsNormal`: no law applies at any node. `isNormal_of_run` says that a run that is not stopped ends
  there, and `run_of_isNormal` that a run from there does nothing.
-/

namespace Propositional

open Formula

variable {rule : Rule} {rules : List Rule} {f g : Formula}

/-! ## What a step costs -/

/-- **What a step does to the counts**: it trades an implication for one more node, or it leaves
fewer nodes and no more implications. -/
def Pays (f g : Formula) : Prop :=
  (g.size = f.size + 1 ∧ f.implicationCount = g.implicationCount + 1) ∨
    (g.size < f.size ∧ g.implicationCount ≤ f.implicationCount)

theorem Pays.weight_lt (h : Pays f g) : g.weight < f.weight := by
  unfold Pays at h
  unfold weight
  omega

theorem Pays.implicationCount_le (h : Pays f g) : g.implicationCount ≤ f.implicationCount := by
  unfold Pays at h
  omega

theorem Pays.size_add_implicationCount_le (h : Pays f g) :
    g.size + g.implicationCount ≤ f.size + f.implicationCount := by
  unfold Pays at h
  omega

namespace Rule

theorem pays_of_replaces (h : Replaces f g) : Pays f g := by
  cases h with
  | implication l r =>
    left
    rw [size_binary, size_binary, size_neg, implicationCount_implies,
      implicationCount_binary .or _ _ (by decide), implicationCount_neg]
    omega
  | doubleNegation a =>
    right
    simp only [size_neg, implicationCount_neg]
    omega
  | negatedConstant b =>
    right
    simp
  | @deMorgan op hop l r =>
    right
    have hdual : op.dual ≠ .implies := by cases op <;> first | decide | exact absurd rfl hop
    simp only [size_neg, size_binary, implicationCount_neg, implicationCount_binary _ _ _ hop,
      implicationCount_binary _ _ _ hdual]
    omega
  | constant hop l r b =>
    right
    have hl := l.one_le_size
    rw [size_binary, size_const, implicationCount_const]
    omega
  | left hop l r | right hop l r =>
    right
    rw [size_binary, implicationCount_binary _ _ _ hop]
    omega

/-- **A step pays** at whatever depth the law applies. -/
theorem pays_of_applyFirst (h : rule.applyFirst f = some g) : Pays f g := by
  refine applyFirst_lift (R := Pays) ?_ ?_ ?_ ?_ h
  · exact fun f g happ => pays_of_replaces (replaces_of_apply happ)
  · intro a a' ha
    simp only [Pays, size_neg, implicationCount_neg] at ha ⊢
    omega
  · intro op l l' r hl
    cases op <;> simp only [Pays, size_binary, implicationCount_implies, implicationCount_binary,
      ne_eq, reduceCtorEq, not_false_eq_true] at hl ⊢ <;> omega
  · intro op l r r' hr
    cases op <;> simp only [Pays, size_binary, implicationCount_implies, implicationCount_binary,
      ne_eq, reduceCtorEq, not_false_eq_true] at hr ⊢ <;> omega

theorem weight_lt_of_applyFirst (h : rule.applyFirst f = some g) : g.weight < f.weight :=
  (pays_of_applyFirst h).weight_lt

end Rule

/-! ## The length of a run -/

namespace Simplification

/-- **A run takes off the weight at least one for each step.** -/
theorem length_steps_add_weight_le (rules : List Rule) (n : Nat) (f : Formula) :
    (run rules n f).steps.length + (run rules n f).result.weight ≤ f.weight := by
  fun_induction run rules n f with
  | case1 f => simp
  | case2 n f hnone => simp [unchanged]
  | case3 n f rule g h rest ih =>
    have hg := Rule.weight_lt_of_applyFirst (Rule.applyFirst_of_firstOf h).2
    have hrest : rest.steps.length + rest.result.weight ≤ g.weight := ih
    simp only [List.length_cons]
    omega

theorem length_steps_lt_weight (rules : List Rule) (n : Nat) (f : Formula) :
    (run rules n f).steps.length < f.weight := by
  have hrun := length_steps_add_weight_le rules n f
  have hresult := (run rules n f).result.one_le_weight
  omega

/-- A run that is stopped has used its cap up. -/
theorem length_steps_of_stopped {n : Nat} (h : (run rules n f).stopped = true) :
    (run rules n f).steps.length = n := by
  fun_induction run rules n f with
  | case1 f => rfl
  | case2 n f hnone => cases h
  | case3 n f rule g hfirst rest ih => simpa using ih h

theorem stopped_eq_false_of_weight_le {n : Nat} (h : f.weight ≤ n) :
    (run rules n f).stopped = false := by
  rw [← Bool.not_eq_true]
  intro hstop
  have hlength := length_steps_of_stopped hstop
  have hlt := length_steps_lt_weight rules n f
  omega

/-! ## The end of a run -/

/-- No law of the list applies at any node. -/
def IsNormal (rules : List Rule) (f : Formula) : Prop :=
  ∀ rule ∈ rules, ∀ g ∈ preOrder [f], rule.apply g = none

theorem isNormal_iff : IsNormal rules f ↔ Rule.firstOf rules f = none := by
  simp only [IsNormal, Rule.firstOf_eq_none_iff, Rule.applyFirst_eq_none_iff]

/-- **A run that is not stopped ends at a formula to which no law applies.** -/
theorem isNormal_of_run {n : Nat} (h : (run rules n f).stopped = false) :
    IsNormal rules (run rules n f).result := by
  fun_induction run rules n f with
  | case1 f => cases h
  | case2 n f hnone => exact isNormal_iff.mpr hnone
  | case3 n f rule g hfirst rest ih => exact ih h

theorem run_of_isNormal {n : Nat} (h : IsNormal rules f) (hn : 0 < n) :
    run rules n f = unchanged f := by
  cases n with
  | zero => cases hn
  | succ n => rw [run, isNormal_iff.mp h]

/-- A run that is not stopped has room for one more attempt. -/
theorem pos_of_not_stopped {n : Nat} (h : (run rules n f).stopped = false) : 0 < n := by
  cases n with
  | zero => cases h
  | succ n => exact Nat.succ_pos n

end Simplification

end Propositional
