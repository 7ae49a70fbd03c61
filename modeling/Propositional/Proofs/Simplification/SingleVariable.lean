import Propositional.Proofs.Simplification.Refinement
import Propositional.Proofs.Simplification.Shape

/-!
# Formulas in at most one variable are decided

Over one variable there are four truth functions, and a formula to which no law of the catalog
applies is one of four: a constant, the variable or its negation. As a simplification keeps the
truth function, it finds the one of the four that a formula is equivalent to.

* `ofValues`: the four formulas, by their values where the variable is false and where it is true.
* `representative`: the one with the values of a formula. `eq_representative_iff` says that of the
  four it alone is equivalent to the formula.
* `Simplification.IsNormal.exists_ofValues`: there are no other normal forms over one variable. This
  is where the laws are needed together: what is left of the operands of a connective are literals
  of one variable, and these are equal or opposed.
* `result_eq_representative`: so a run that is not stopped ends at the representative.
* `Formula.simplify_decides_single_variable`: the result is a normal form for equivalence.
-/

namespace Propositional

namespace Formula

variable {f g : Formula} {x : String} {v : String → Bool}

/-! ## The four truth functions of one variable -/

/-- The formula with the value `onFalse` where `x` is false and `onTrue` where it is true. -/
def ofValues (x : String) : (onFalse onTrue : Bool) → Formula
  | false, false => const false
  | false, true => var x
  | true, false => neg (var x)
  | true, true => const true

@[simp] theorem holds_ofValues (onFalse onTrue : Bool) :
    (ofValues x onFalse onTrue).holds v = bif v x then onTrue else onFalse := by
  cases onFalse <;> cases onTrue <;> cases h : v x <;> simp [ofValues, holds, h]

theorem mem_ofValues_iff :
    f ∈ [const true, const false, var x, neg (var x)] ↔ ∃ a b, f = ofValues x a b := by
  simp only [Bool.exists_bool, ofValues, List.mem_cons, List.not_mem_nil, or_false]
  constructor
  · rintro (h | h | h | h) <;> simp [h]
  · rintro ((h | h) | h | h) <;> simp [h]

/-- What is no constant is a literal. -/
theorem ofValues_eq_literal {a b : Bool} (h : ∀ c, ofValues x a b ≠ const c) :
    ofValues x a b = var x ∨ ofValues x a b = neg (var x) := by
  match a, b with
  | false, true => exact Or.inl rfl
  | true, false => exact Or.inr rfl
  | false, false => exact absurd rfl (h false)
  | true, true => exact absurd rfl (h true)

/-- The one of the four with the values that `f` has where all variables are false and where all are
true. -/
def representative (x : String) (f : Formula) : Formula :=
  ofValues x (f.holds fun _ => false) (f.holds fun _ => true)

/-- A formula over `x` alone has no more than these two values. -/
theorem holds_representative (hx : ∀ y ∈ names [f], y = x) :
    (representative x f).holds v = f.holds v := by
  rw [representative, holds_ofValues]
  cases h : v x with
  | false => exact holds_congr fun y hy => by rw [hx y hy, h]
  | true => exact holds_congr fun y hy => by rw [hx y hy, h]

/-- Equivalent formulas have the same representative. -/
theorem representative_congr (h : ∀ v, f.holds v = g.holds v) :
    representative x f = representative x g := by
  rw [representative, representative, h, h]

theorem representative_ofValues (onFalse onTrue : Bool) :
    representative x (ofValues x onFalse onTrue) = ofValues x onFalse onTrue := by
  rw [representative, holds_ofValues, holds_ofValues]
  rfl

/-- Of the four formulas it is the only one that is equivalent to `f`. -/
theorem eq_representative_iff (hx : ∀ y ∈ names [f], y = x) :
    g = representative x f ↔
      g ∈ [const true, const false, var x, neg (var x)] ∧ Equivalent g f := by
  rw [mem_ofValues_iff, equivalent_iff]
  constructor
  · rintro rfl
    exact ⟨⟨_, _, rfl⟩, fun _ => holds_representative hx⟩
  · rintro ⟨⟨a, b, rfl⟩, h⟩
    rw [← representative_congr h, representative_ofValues]

/-- **Two formulas over `x` alone are equivalent** exactly if they have the same representative. -/
theorem equivalent_iff_representative (hf : ∀ y ∈ names [f], y = x) (hg : ∀ y ∈ names [g], y = x) :
    Equivalent f g ↔ representative x f = representative x g := by
  rw [equivalent_iff]
  refine ⟨representative_congr, fun h v => ?_⟩
  rw [← holds_representative hf, h, holds_representative hg]

end Formula

/-! ## Normal forms -/

namespace Simplification.IsNormal

open Formula

variable {f : Formula} {x : String}

/-- **No law of the catalog applies to any node**: over one variable there are four such
formulas. -/
theorem exists_ofValues (h : IsNormal Rule.catalog f) (hx : ∀ y ∈ names [f], y = x) :
    ∃ a b, f = ofValues x a b := by
  induction f with
  | var y =>
    obtain rfl := hx y (by simp)
    exact ⟨false, true, rfl⟩
  | const b => exact ⟨b, b, by cases b <;> rfl⟩
  | neg a ih =>
    obtain ⟨b, c, rfl⟩ := ih h.operand (forall_mem_names_neg.mp hx)
    -- a law applies to the negation of anything but the variable
    match b, c with
    | false, true => exact ⟨true, false, rfl⟩
    | false, false => cases h .negatedConstant (by decide) (neg (const false)) (by simp [ofValues])
    | true, true => cases h .negatedConstant (by decide) (neg (const true)) (by simp [ofValues])
    | true, false => cases h .doubleNegation (by decide) (neg (neg (var x))) (by simp [ofValues])
  | binary op l r ihl ihr =>
    exfalso
    have hroot : binary op l r ∈ preOrder [binary op l r] := by simp
    have hconst := h.operand_ne_const hroot
    have hapart := h.apart hroot
    obtain ⟨hxl, hxr⟩ := forall_mem_names_binary.mp hx
    obtain ⟨a, b, rfl⟩ := ihl h.left hxl
    obtain ⟨c, d, rfl⟩ := ihr h.right hxr
    -- the operands are no constants, so they are literals, and these are equal or opposed
    rcases ofValues_eq_literal fun e => (hconst e).1 with hl | hl <;>
      rcases ofValues_eq_literal fun e => (hconst e).2 with hr | hr <;>
      simp [hl, hr] at hapart

end Simplification.IsNormal

/-! ## The result of a run -/

namespace Formula

variable {f : Formula} {x : String} {cap : Int}

/-- **The result is the representative of the formula.** -/
theorem result_eq_representative (hx : ∀ y ∈ names [f], y = x)
    (hstop : (f.simplify Rule.catalog cap).stopped = false) :
    (f.simplify Rule.catalog cap).result = representative x f := by
  have hnames : ∀ y ∈ names [(f.simplify Rule.catalog cap).result], y = x :=
    fun y hy => hx y (Simplification.mem_names_of_run Rule.catalog cap.toNat f hy)
  have hnormal : Simplification.IsNormal Rule.catalog (f.simplify Rule.catalog cap).result :=
    Simplification.isNormal_of_run hstop
  obtain ⟨a, b, hresult⟩ := hnormal.exists_ofValues hnames
  have hholds (v : String → Bool) : (f.simplify Rule.catalog cap).result.holds v = f.holds v :=
    (Simplification.run_refines Rule.catalog cap.toNat f).holds_eq v
  rw [hresult] at hholds ⊢
  rw [← representative_congr hholds, representative_ofValues]

/-- **Over at most one variable simplification decides equivalence.** With a cap from the weight of
the formula on, the result is a constant, the variable or its negation, and of these it is the only
one that is equivalent to the formula. So a formula without variables comes to its value, one that
is always true or always false to that constant, and formulas over the same variable are equivalent
exactly if they have the same result. -/
theorem simplify_decides_single_variable (f : Formula) (x : String) (cap : Int)
    (hx : ∀ y ∈ names [f], y = x) (hcap : (f.weight : Int) ≤ cap) :
    (f.simplify Rule.catalog cap).stopped = false ∧
      (∀ h : Formula, h = (f.simplify Rule.catalog cap).result ↔
        h ∈ [const true, const false, var x, neg (var x)] ∧ Equivalent h f) ∧
      (names [f] = [] → ∃ b, f.evaluate (fun _ => none) = .ok b ∧
        (f.simplify Rule.catalog cap).result = const b) ∧
      (∀ b, (∀ v : String → Bool, f.evaluate (fun y => some (v y)) = .ok b) →
        (f.simplify Rule.catalog cap).result = const b) ∧
      ∀ (g : Formula) (cap' : Int), (∀ y ∈ names [g], y = x) → (g.weight : Int) ≤ cap' →
        (Equivalent f g ↔
          (f.simplify Rule.catalog cap).result = (g.simplify Rule.catalog cap').result) := by
  have runs {g : Formula} {cap : Int} (hcap : (g.weight : Int) ≤ cap) :
      (g.simplify Rule.catalog cap).stopped = false :=
    Simplification.stopped_eq_false_of_weight_le (by omega)
  have hresult := result_eq_representative hx (runs hcap)
  have hconst (b : Bool) (hb : ∀ v, f.holds v = b) :
      (f.simplify Rule.catalog cap).result = const b := by
    rw [hresult, representative, hb, hb]
    cases b <;> rfl
  refine ⟨runs hcap, fun h => ?_, fun hnone => ?_, fun b hb => ?_, fun g cap' hg hcap' => ?_⟩
  · rw [hresult]
    exact eq_representative_iff hx
  · have hvalue : f.evaluate (fun _ => none) = .ok (f.holds fun _ => false) :=
      evaluate_eq_holds fun y hy => absurd hy (by simp [hnone])
    exact ⟨_, hvalue, hconst _ fun v => holds_congr fun y hy => absurd hy (by simp [hnone])⟩
  · refine hconst b fun v => ?_
    exact Except.ok.inj ((f.evaluate_total v).symm.trans (hb v))
  · rw [equivalent_iff_representative hx hg, hresult, result_eq_representative hg (runs hcap')]

/-- `(A ➔ ¬A) ⋀ (A ⋁ True)` and `¬A` are equivalent, and the first comes to the second. -/
theorem simplify_decides_self_denial :
    let f : Formula := binary .and (binary .implies (var "A") (neg (var "A")))
      (binary .or (var "A") (const true))
    let g : Formula := neg (var "A")
    (∀ y ∈ names [f], y = "A") ∧ f.weight = 10 ∧
      (f.simplify Rule.catalog 10).result = g ∧ Equivalent g f ∧
      (Equivalent f g ↔
        (f.simplify Rule.catalog 10).result = (g.simplify Rule.catalog 2).result) := by
  intro f g
  have hf : ∀ y ∈ names [f], y = "A" := by simp [f]
  have hg : ∀ y ∈ names [g], y = "A" := by simp [g]
  have hweight : f.weight = 10 := by decide +kernel
  have hresult : (f.simplify Rule.catalog 10).result = g := by decide
  obtain ⟨-, hfour, -, -, hequal⟩ :=
    simplify_decides_single_variable f "A" 10 hf (by rw [hweight]; decide)
  exact ⟨hf, hweight, hresult, ((hfour g).mp hresult.symm).2, hequal g 2 hg (by decide +kernel)⟩

end Formula

end Propositional
