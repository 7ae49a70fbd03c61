import Propositional.Proofs.Formula.Relabel
import Propositional.Proofs.Simplification.Fixpoint
import Propositional.Proofs.Simplification.Leaves

/-!
# Simplification does not depend on labels

A relabelling that suits a formula can be done before or after a simplification: the laws apply at
the same nodes in the same order, and what they make is relabelled as well. So neither the names of
the variables matter, nor which of `⋀` and `⋁` is which.

* `Rule.apply_relabel`: a law at one node. This is where `Relabelling.Suits` is used up.
* `Rule.applyFirst_relabel`: the search for a node.
* `Simplification.run_map`: from the search to a run, for any map of formulas.
* `Formula.simplify_rename`, `Formula.simplify_dual`: a run, step by step.
-/

namespace Propositional

open Formula

/-! ## A law at one node -/

namespace Rule

variable {ρ : Relabelling} {rule : Rule} {rules : List Rule} {f g l r : Formula} {op : Connective}

/-- The law of De Morgan for both connectives at once. -/
theorem applyNegation_deMorgan (a : Formula) :
    applyNegation .deMorgan a = match a with
      | .binary op (.neg b) (.neg c) => op.neutral?.map fun _ => .binary op.dual b c
      | _ => none := by
  cases a with
  | binary op l r => cases op <;> cases l <;> cases r <;> rfl
  | _ => rfl

theorem applyNegation_relabel (h : ρ.Suits f) (a : Formula) :
    rule.applyNegation (a.relabel ρ) = (rule.applyNegation a).map (relabel ρ) := by
  cases rule with
  | doubleNegation => cases a <;> rfl
  | negatedConstant => cases a <;> simp [applyNegation, relabel, h.value_not]
  | deMorgan =>
    rw [applyNegation_deMorgan, applyNegation_deMorgan]
    cases a with
    | binary op l r =>
      cases l <;> cases r <;> simp [relabel, h.neutral, h.op_dual, Function.comp_def]
    | _ => rfl
  | _ => rfl

theorem opposed_relabel (h : ρ.Suits (binary op l r)) :
    opposed (l.relabel ρ) (r.relabel ρ) = opposed l r := by
  have hl : l.relabel ρ = neg (r.relabel ρ) ↔ l = neg r :=
    h.relabel_eq_iff (b := neg r) (by simp +contextual) (by simp +contextual)
  have hr : r.relabel ρ = neg (l.relabel ρ) ↔ r = neg l :=
    h.relabel_eq_iff (b := neg l) (by simp +contextual) (by simp +contextual)
  simp only [opposed, hl, hr]

theorem absorbs_relabel {outer inner : Formula} (h : ρ.Suits f)
    (houter : ∀ x ∈ names [outer], x ∈ names [f]) (hinner : ∀ x ∈ names [inner], x ∈ names [f]) :
    absorbs (ρ.op op) (outer.relabel ρ) (inner.relabel ρ) = absorbs op outer inner := by
  cases inner with
  | binary op' a b =>
    simp only [mem_names_binary, or_imp, forall_and] at hinner
    simp only [absorbs, relabel, ← h.op_dual, h.op_eq_iff, h.relabel_eq_iff houter hinner.1,
      h.relabel_eq_iff houter hinner.2]
  | _ => rfl

theorem applyLattice_relabel {unit : Bool} (h : ρ.Suits (binary op l r)) :
    rule.applyLattice (ρ.op op) (ρ.value unit) (l.relabel ρ) (r.relabel ρ) =
      (rule.applyLattice op unit l r).map (relabel ρ) := by
  have hl : ∀ x ∈ names [l], x ∈ names [binary op l r] := by simp +contextual
  have hr : ∀ x ∈ names [r], x ∈ names [binary op l r] := by simp +contextual
  cases rule with
  | complement =>
    simp only [applyLattice, opposed_relabel h, ← h.value_not]
    split <;> rfl
  | annihilation =>
    simp only [applyLattice, ← h.value_not, h.relabel_eq_const_iff]
    split <;> rfl
  | identity =>
    simp only [applyLattice, h.relabel_eq_const_iff]
    split
    · rfl
    · split <;> rfl
  | idempotence =>
    simp only [applyLattice, h.relabel_eq_iff hl hr]
    split <;> rfl
  | absorption =>
    simp only [applyLattice, absorbs_relabel h hl hr, absorbs_relabel h hr hl]
    split
    · rfl
    · split <;> rfl
  | implicationElimination | doubleNegation | negatedConstant | deMorgan => rfl

/-- **A law does the same before and after a relabelling** that suits the node. -/
theorem apply_relabel (h : ρ.Suits f) :
    rule.apply (f.relabel ρ) = (rule.apply f).map (relabel ρ) := by
  cases f with
  | var x => rfl
  | const b => rfl
  | neg a => exact applyNegation_relabel h a
  | binary op l r =>
    simp only [relabel, apply, h.neutral]
    cases hop : op.neutral? with
    | some unit => exact applyLattice_relabel h
    | none =>
      -- an implication is there, so the `⋁` that replaces it is kept
      obtain rfl := neutral?_eq_none_iff.mp hop
      have hor : ρ.op .or = .or := h.or_of_implication.resolve_right (by simp)
      simp only [Option.map_none]
      split
      · simp [relabel, hor]
      · rfl

/-! ## The search for a node -/

/-- **A law is applied at the same node** before and after a relabelling. -/
theorem applyFirst_relabel (h : ρ.Suits f) :
    rule.applyFirst (f.relabel ρ) = (rule.applyFirst f).map (relabel ρ) := by
  induction f with
  | var x => rfl
  | const b => rfl
  | neg a ih =>
    have ha : ρ.Suits a := h.of_le (by simp) (by simp)
    have hroot : rule.apply ((neg a).relabel ρ) = _ := apply_relabel h
    rw [relabel] at hroot ⊢
    rw [applyFirst_neg, applyFirst_neg, hroot, ih ha, Option.map_or, Option.map_map, Option.map_map]
    rfl
  | binary op l r ihl ihr =>
    have hcount := implicationCount_add_le op l r
    have hl : ρ.Suits l := h.of_le (by simp +contextual) (by omega)
    have hr : ρ.Suits r := h.of_le (by simp +contextual) (by omega)
    have hroot : rule.apply ((binary op l r).relabel ρ) = _ := apply_relabel h
    rw [relabel] at hroot ⊢
    rw [applyFirst_binary, applyFirst_binary, hroot, ihl hl, ihr hr, Option.map_or, Option.map_or,
      Option.map_map, Option.map_map, Option.map_map, Option.map_map]
    rfl

/-- What suits a formula suits what a law makes of it. -/
theorem suits_of_applyFirst (h : ρ.Suits f) (happ : rule.applyFirst f = some g) : ρ.Suits g :=
  h.of_le (fun _ hx => mem_names_of_applyFirst happ hx) (pays_of_applyFirst happ).implicationCount_le

theorem firstOf_map {φ : Formula → Formula}
    (h : ∀ rule ∈ rules, rule.applyFirst (φ f) = (rule.applyFirst f).map φ) :
    firstOf rules (φ f) = (firstOf rules f).map fun found => (found.1, φ found.2) := by
  induction rules with
  | nil => rfl
  | cons first rules ih =>
    rw [List.forall_mem_cons] at h
    rw [firstOf, firstOf, h.1]
    cases first.applyFirst f with
    | some g => rfl
    | none => exact ih h.2

end Rule

/-! ## A run -/

/-- The same step in other formulas. -/
def Step.map (φ : Formula → Formula) (s : Step) : Step := ⟨s.rule, φ s.before, φ s.after⟩

namespace Simplification

/-- The same laws at work on other formulas. -/
def map (φ : Formula → Formula) (s : Simplification) : Simplification :=
  ⟨φ s.result, s.steps.map (Step.map φ), s.stopped⟩

/-- **From a step to a run**: what the search for a node commutes with, a run commutes with, as long
as the steps do not leave the formulas for which it does. -/
theorem run_map {φ : Formula → Formula} {P : Formula → Prop} {rules : List Rule}
    (keep : ∀ rule ∈ rules, ∀ f g, P f → rule.applyFirst f = some g → P g)
    (commute : ∀ rule ∈ rules, ∀ f, P f → rule.applyFirst (φ f) = (rule.applyFirst f).map φ)
    (n : Nat) {f : Formula} (hf : P f) : run rules n (φ f) = (run rules n f).map φ := by
  induction n generalizing f with
  | zero => rfl
  | succ n ih =>
    have hfirst : Rule.firstOf rules (φ f) =
        (Rule.firstOf rules f).map fun found => (found.1, φ found.2) :=
      Rule.firstOf_map fun rule hrule => commute rule hrule f hf
    rw [run, run, hfirst]
    cases h : Rule.firstOf rules f with
    | none => rfl
    | some found =>
      obtain ⟨hmem, happ⟩ := Rule.applyFirst_of_firstOf h
      simp [ih (keep _ hmem _ _ hf happ), map, Step.map]

theorem run_relabel {ρ : Relabelling} {f : Formula} (h : ρ.Suits f) (rules : List Rule) (n : Nat) :
    run rules n (f.relabel ρ) = (run rules n f).map (relabel ρ) :=
  run_map (P := ρ.Suits) (fun _ _ _ _ hf happ => Rule.suits_of_applyFirst hf happ)
    (fun _ _ _ hf => Rule.applyFirst_relabel hf) n h

end Simplification

/-- **Simplification does not depend on the names of the variables.** If a renaming keeps the
variables of a formula apart, the renamed formula is simplified by the same laws in the same order,
every formula on the way and the result are the renamed ones, and the run is stopped if and only if
the other is. -/
theorem Formula.simplify_rename (name : String → String) (f : Formula)
    (hname : ∀ x ∈ names [f], ∀ y ∈ names [f], name x = name y → x = y) (rules : List Rule)
    (cap : Int) :
    (f.rename name).simplify rules cap = (f.simplify rules cap).map (rename name) :=
  Simplification.run_relabel (suits_rename hname) rules cap.toNat

/-- `(A ➔ B) ⋀ (A ➔ B)` with `B` for `A` and `C` for all else comes to `¬B ⋁ C`, as it came to
`¬A ⋁ B`. The two implications are found to be equal only when both are gone. -/
theorem Formula.simplify_rename_repeated_implication :
    let f : Formula := binary .and (binary .implies (var "A") (var "B"))
      (binary .implies (var "A") (var "B"))
    let name : String → String := fun x => if x = "A" then "B" else "C"
    (∀ x ∈ names [f], ∀ y ∈ names [f], name x = name y → x = y) ∧
      (f.simplify Rule.catalog 4).result = binary .or (neg (var "A")) (var "B") ∧
      ((f.rename name).simplify Rule.catalog 4).result = binary .or (neg (var "B")) (var "C") ∧
      ((f.rename name).simplify Rule.catalog 4).steps.map Step.rule =
        [.implicationElimination, .implicationElimination, .idempotence] := by
  intro f name
  have hname : ∀ x ∈ names [f], ∀ y ∈ names [f], name x = name y → x = y := by
    simp [f, name]
  have hresult : (f.simplify Rule.catalog 4).result = binary .or (neg (var "A")) (var "B") := by
    decide
  have hrules : (f.simplify Rule.catalog 4).steps.map Step.rule =
      [.implicationElimination, .implicationElimination, .idempotence] := by decide
  rw [f.simplify_rename name hname, Simplification.map]
  refine ⟨hname, hresult, ?_, ?_⟩
  · rw [hresult]
    rfl
  · rw [List.map_map]
    exact hrules

/-- **Simplification respects duality.** Without implications, the dual of a formula is simplified
by the same laws in the same order, and every formula on the way and the result are the duals. -/
theorem Formula.simplify_dual (f : Formula) (hfree : f.implicationCount = 0) (rules : List Rule)
    (cap : Int) : f.dual.simplify rules cap = (f.simplify rules cap).map dual :=
  Simplification.run_relabel (suits_dual hfree) rules cap.toNat

/-- `¬(¬A ⋀ ¬B) ⋁ False` comes to `A ⋁ B`, and its dual `¬(¬A ⋁ ¬B) ⋀ True` to `A ⋀ B`. -/
theorem Formula.simplify_dual_negated :
    let f : Formula := binary .or (neg (binary .and (neg (var "A")) (neg (var "B")))) (const false)
    f.implicationCount = 0 ∧
      (f.simplify Rule.catalog 3).result = binary .or (var "A") (var "B") ∧
      (f.dual.simplify Rule.catalog 3).result = binary .and (var "A") (var "B") ∧
      (f.dual.simplify Rule.catalog 3).steps.map Step.rule = [.identity, .deMorgan] := by
  intro f
  have hfree : f.implicationCount = 0 := by simp [f, implicationCount_binary]
  have hresult : (f.simplify Rule.catalog 3).result = binary .or (var "A") (var "B") := by decide
  have hrules : (f.simplify Rule.catalog 3).steps.map Step.rule = [.identity, .deMorgan] := by decide
  rw [f.simplify_dual hfree, Simplification.map]
  refine ⟨hfree, hresult, ?_, ?_⟩
  · rw [hresult]
    rfl
  · rw [List.map_map]
    exact hrules

end Propositional
