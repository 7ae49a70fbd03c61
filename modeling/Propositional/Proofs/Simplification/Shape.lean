import Propositional.Proofs.Simplification.Fixpoint
import Propositional.Proofs.Simplification.Leaves

/-!
# What a simplified formula looks like

Where no law of the catalog applies any more, the formula has no implication and no double negation,
and the operands of a connective are neither equal nor opposed. No law says of a whole formula that
it has no constant: there is one for every parent that a constant can have, and so it can only be
left at the root.

* `IsNormal.exists_neutral`: a connective has a neutral constant, and no lattice law applies to its
  operands; `IsNormal.apart` and `IsNormal.operand_ne_const` read off what the laws do not find.
* `IsNormal.constant_free`: the induction that takes a constant up to the root.
* `Simplification.size_run_le`: only an implication pays for the node that a step may add.
* `Formula.shape_of_simplify`: a run of the whole catalog.
-/

namespace Propositional

open Formula

variable {rules : List Rule} {f a l r : Formula} {op : Connective}

/-! ## The nodes of a normal form -/

/-- **Nothing is left to do**, in terms of the nodes of the formula. -/
structure Reduced (f : Formula) : Prop where
  no_implication : ∀ l r, binary .implies l r ∉ preOrder [f]
  constant_free : (∃ b, f = const b) ∨ ∀ b, const b ∉ preOrder [f]
  no_double_negation : ∀ a, neg (neg a) ∉ preOrder [f]
  apart : ∀ op l r, binary op l r ∈ preOrder [f] → l ≠ r ∧ l ≠ neg r ∧ r ≠ neg l

namespace Simplification.IsNormal

theorem operand (h : IsNormal rules (neg a)) : IsNormal rules a := by
  intro rule hrule g hg
  exact h rule hrule g (by simp [hg])

theorem left (h : IsNormal rules (binary op l r)) : IsNormal rules l := by
  intro rule hrule g hg
  exact h rule hrule g (by simp [hg])

theorem right (h : IsNormal rules (binary op l r)) : IsNormal rules r := by
  intro rule hrule g hg
  exact h rule hrule g (by simp [hg])

/-- Every connective of a normal form has a neutral constant, and no law finds anything to do with
its operands. -/
theorem exists_neutral (h : IsNormal Rule.catalog f) (hg : binary op l r ∈ preOrder [f]) :
    ∃ unit, op.neutral? = some unit ∧
      ∀ rule ∈ Rule.catalog, rule.applyLattice op unit l r = none := by
  cases hunit : op.neutral? with
  | none =>
    have happ := h .implicationElimination (by decide) _ hg
    simp [Rule.apply, hunit] at happ
  | some unit =>
    refine ⟨unit, rfl, fun rule hrule => ?_⟩
    have happ := h rule hrule _ hg
    simpa only [Rule.apply, hunit] using happ

theorem apart (h : IsNormal Rule.catalog f) (hg : binary op l r ∈ preOrder [f]) :
    l ≠ r ∧ l ≠ neg r ∧ r ≠ neg l := by
  obtain ⟨unit, -, hlaws⟩ := h.exists_neutral hg
  have hequal : ¬ l = r := by simpa [Rule.applyLattice] using hlaws .idempotence (by decide)
  have hopposed : ¬ l = neg r ∧ ¬ r = neg l := by
    simpa [Rule.applyLattice, Rule.opposed] using hlaws .complement (by decide)
  exact ⟨hequal, hopposed⟩

/-- A constant beside a connective is neutral or absorbing, on either side. -/
theorem operand_ne_const (h : IsNormal Rule.catalog f) (hg : binary op l r ∈ preOrder [f])
    (b : Bool) : l ≠ const b ∧ r ≠ const b := by
  obtain ⟨unit, -, hlaws⟩ := h.exists_neutral hg
  have habsorbing : ¬ l = const !unit ∧ ¬ r = const !unit := by
    simpa [Rule.applyLattice] using hlaws .annihilation (by decide)
  by_cases hb : b = unit
  · subst hb
    have hneutral := hlaws .identity (by decide)
    rw [Rule.applyLattice] at hneutral
    split at hneutral
    · cases hneutral
    · rename_i hr
      split at hneutral
      · cases hneutral
      · rename_i hl
        exact ⟨hl, hr⟩
  · rw [Bool.eq_not_of_ne hb]
    exact habsorbing

/-- **A constant is left only if it is the whole formula.** -/
theorem constant_free (h : IsNormal Rule.catalog f) :
    (∃ b, f = const b) ∨ ∀ b, const b ∉ preOrder [f] := by
  induction f with
  | var x => exact Or.inr fun b => by simp
  | const b => exact Or.inl ⟨b, rfl⟩
  | neg a ih =>
    right
    rcases ih h.operand with ⟨b, rfl⟩ | hfree
    · cases h .negatedConstant (by decide) (neg (const b)) (by simp)
    · intro b
      simpa using hfree b
  | binary op l r ihl ihr =>
    -- neither operand is a constant, so by induction neither has one
    right
    have hroot : binary op l r ∈ preOrder [binary op l r] := by simp
    have hne := h.operand_ne_const hroot
    rcases ihl h.left with ⟨b, rfl⟩ | hl
    · exact absurd rfl (hne b).1
    · rcases ihr h.right with ⟨b, rfl⟩ | hr
      · exact absurd rfl (hne b).2
      · intro b
        simpa using ⟨hl b, hr b⟩

/-- **What no law of the catalog applies to is reduced.** -/
theorem reduced (h : IsNormal Rule.catalog f) : Reduced f where
  no_implication l r hg := by
    obtain ⟨unit, hunit, -⟩ := h.exists_neutral hg
    cases hunit
  constant_free := h.constant_free
  no_double_negation a hg := by cases h .doubleNegation (by decide) _ hg
  apart op l r hg := h.apart hg

end Simplification.IsNormal

/-! ## The size -/

/-- **The result has at most one node more for each implication of the formula.** -/
theorem Simplification.size_run_le (rules : List Rule) (n : Nat) (f : Formula) :
    (run rules n f).result.size ≤ f.size + f.implicationCount := by
  have hrun : (run rules n f).result.size + (run rules n f).result.implicationCount ≤
      f.size + f.implicationCount :=
    run_lift (R := fun f g => g.size + g.implicationCount ≤ f.size + f.implicationCount)
      (fun _ => Nat.le_refl _) (fun _ _ _ hfg hgh => Nat.le_trans hgh hfg)
      (fun _ _ _ _ happ => (Rule.pays_of_applyFirst happ).size_add_implicationCount_le) n f
  omega

/-! ## A run of the catalog -/

/-- **The shape of a simplified formula.** A run of the whole catalog that is not stopped at its cap
comes to a formula without implications and double negations, which is one constant or has none, and
in which the operands of a connective are neither equal nor opposed. A cap that is at least the
weight of the formula stops no run. Wherever a run ends, its result has only names of the formula,
no more leaves, and at most one node more for each implication. -/
theorem Formula.shape_of_simplify (f : Formula) (cap : Int) :
    ((f.weight : Int) ≤ cap → (f.simplify Rule.catalog cap).stopped = false) ∧
      ((f.simplify Rule.catalog cap).stopped = false →
        Reduced (f.simplify Rule.catalog cap).result) ∧
      (∀ x ∈ names [(f.simplify Rule.catalog cap).result], x ∈ names [f]) ∧
      (f.simplify Rule.catalog cap).result.leafCount ≤ f.leafCount ∧
      (f.simplify Rule.catalog cap).result.size ≤ f.size + f.implicationCount := by
  refine ⟨fun hcap => ?_, fun hstop => ?_, fun x hx => ?_, ?_, ?_⟩
  · exact Simplification.stopped_eq_false_of_weight_le (by omega)
  · exact (Simplification.isNormal_of_run hstop).reduced
  · exact Simplification.mem_names_of_run Rule.catalog cap.toNat f hx
  · exact Simplification.leafCount_run_le Rule.catalog cap.toNat f
  · exact Simplification.size_run_le Rule.catalog cap.toNat f

/-- `A ➔ B ⋀ True` becomes `¬A ⋁ B`, with one node for the implication and two less for the
constant. -/
theorem Formula.shape_of_simplified_implication :
    let f : Formula := .binary .implies (.var "A") (.binary .and (.var "B") (.const true))
    let g : Formula := .binary .or (.neg (.var "A")) (.var "B")
    f.simplify Rule.catalog 7 = ⟨g, [⟨.implicationElimination, f,
        .binary .or (.neg (.var "A")) (.binary .and (.var "B") (.const true))⟩,
      ⟨.identity, .binary .or (.neg (.var "A")) (.binary .and (.var "B") (.const true)), g⟩],
        false⟩ ∧ Reduced g ∧ g.size ≤ f.size + f.implicationCount := by
  intro f g
  have hrun : f.simplify Rule.catalog 7 = ⟨g, [⟨.implicationElimination, f,
        .binary .or (.neg (.var "A")) (.binary .and (.var "B") (.const true))⟩,
      ⟨.identity, .binary .or (.neg (.var "A")) (.binary .and (.var "B") (.const true)), g⟩],
        false⟩ := by decide
  obtain ⟨hcap, hshape, -, -, hsize⟩ := Formula.shape_of_simplify f 7
  have hreduced := hshape (hcap (by decide +kernel))
  rw [hrun] at hreduced hsize
  exact ⟨hrun, hreduced, hsize⟩

end Propositional
