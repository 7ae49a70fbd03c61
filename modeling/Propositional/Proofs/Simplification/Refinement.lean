import Propositional.Proofs.Formula.Truth
import Propositional.Proofs.Simplification.Step

/-!
# Simplification keeps every truth value

An assignment may leave variables open, and evaluation looks at an operand only if it has to. So a
law that drops or reorders operands could turn a value into an error. None of them does: wherever
the formula has a truth value, the simplified one has the same (`Refines`).

* `evaluate_lattice_iff`: a value of `l ⋀ r` or `l ⋁ r` comes from an operand that settles it, or
  from both. The laws on these two connectives are read off it, for both at once.
* `Rule.apply_refines`: each law, at the root of a formula.
* `Refines.neg`, `Refines.binary`: refinement is a congruence, so a law may be used at any depth
  (`Rule.applyFirst_refines`), and it is transitive, so a run may be of any length
  (`Simplification.run_refines`).
* `Refines.holds_eq`: where nothing is left open, refinement is equality.
* `evaluate_simplify`: the result has every truth value of the formula, for any list of laws and any
  cap. With all variables covered both have the same one, and the result can only fail to have one
  where the formula fails.
-/

namespace Propositional

namespace Formula

variable {s : Assignment} {v : Bool} {op : Connective} {a l r : Formula}

/-! ## Values under `⋀` and `⋁` -/

/-- The neutral constant of a connective leaves the value to the other operand, and the opposite
constant settles it. -/
theorem settledBy_of_neutral {unit : Bool} (h : op.neutral? = some unit) :
    op.settledBy unit = none ∧ op.settledBy (!unit) = some !unit := by
  cases op <;> cases h <;> exact ⟨rfl, rfl⟩

/-- **Values under `⋀` and `⋁`**: the left operand settles the value, or the right one has it. -/
theorem evaluate_lattice_iff {unit : Bool} (h : op.neutral? = some unit) :
    (binary op l r).evaluate s = .ok v ↔
      l.evaluate s = .ok (!unit) ∧ v = (!unit) ∨ l.evaluate s = .ok unit ∧ r.evaluate s = .ok v := by
  obtain ⟨hunit, hnot⟩ := settledBy_of_neutral h
  rw [evaluate_binary_iff]
  constructor
  · rintro ⟨b, hb, hv⟩
    by_cases hbu : b = unit
    · subst hbu
      rw [hunit] at hv
      exact Or.inr ⟨hb, by simpa using hv⟩
    · obtain rfl : b = !unit := Bool.eq_not.mpr hbu
      rw [hnot] at hv
      exact Or.inl ⟨hb, by simpa [eq_comm] using hv⟩
  · rintro (⟨hb, rfl⟩ | ⟨hb, hv⟩)
    · exact ⟨_, hb, Or.inl hnot⟩
    · exact ⟨_, hb, Or.inr ⟨hunit, hv⟩⟩

/-! ## Refinement -/

/-- `g` has every truth value that `f` has, under the same assignments. -/
def Refines (g f : Formula) : Prop := ∀ s v, f.evaluate s = .ok v → g.evaluate s = .ok v

namespace Refines

variable {f g h l' r' : Formula}

theorem refl (f : Formula) : Refines f f := fun _ _ hv => hv

theorem trans (hgh : Refines h g) (hfg : Refines g f) : Refines h f :=
  fun s v hv => hgh s v (hfg s v hv)

theorem neg (hg : Refines g f) : Refines (.neg g) (.neg f) :=
  fun s _ hv => evaluate_neg_iff.mpr (hg s _ (evaluate_neg_iff.mp hv))

theorem binary (op : Connective) (hl : Refines l' l) (hr : Refines r' r) :
    Refines (.binary op l' r') (.binary op l r) := by
  intro s v hv
  obtain ⟨b, hb, hsettled | ⟨hopen, hrv⟩⟩ := evaluate_binary_iff.mp hv
  · exact evaluate_binary_iff.mpr ⟨b, hl s b hb, Or.inl hsettled⟩
  · exact evaluate_binary_iff.mpr ⟨b, hl s b hb, Or.inr ⟨hopen, hr s v hrv⟩⟩

/-- A formula that has every truth value of another has its truth function. -/
theorem holds_eq (hg : Refines g f) (v : String → Bool) : g.holds v = f.holds v := by
  have hgv := hg _ _ (f.evaluate_total v)
  exact Except.ok.inj ((g.evaluate_total v).symm.trans hgv)

end Refines

end Formula

/-! ## The laws at one node -/

namespace Rule

open Formula

variable {op : Connective} {unit : Bool} {l r f g : Formula} {rule : Rule}

theorem neutral_dual (h : op.neutral? = some unit) : op.dual.neutral? = some !unit := by
  rw [Connective.neutral?_dual, h]
  rfl

theorem complement_refines (h : op.neutral? = some unit) (ho : opposed l r) :
    Refines (.const !unit) (.binary op l r) := by
  intro s v hv
  rcases (evaluate_lattice_iff h).mp hv with ⟨-, rfl⟩ | ⟨hl, hr⟩
  · rfl
  -- both operands are looked at, so the left one is `unit` and the right one its negation
  · have hne : v = !unit := by
      simp only [opposed, Bool.or_eq_true, decide_eq_true_eq] at ho
      rcases ho with rfl | rfl
      · rw [evaluate_neg_iff, hr] at hl
        simpa using hl
      · rw [evaluate_neg_iff, hl] at hr
        cases v <;> simpa using hr
    rw [hne]; rfl

theorem annihilation_refines (h : op.neutral? = some unit)
    (ha : l = .const (!unit) ∨ r = .const (!unit)) :
    Refines (.const !unit) (.binary op l r) := by
  intro s v hv
  rcases (evaluate_lattice_iff h).mp hv with ⟨-, rfl⟩ | ⟨hl, hr⟩
  · rfl
  · rcases ha with rfl | rfl
    · cases unit <;> cases hl
    · exact hr

theorem identity_right_refines (h : op.neutral? = some unit) :
    Refines l (.binary op l (.const unit)) := by
  intro s v hv
  rcases (evaluate_lattice_iff h).mp hv with ⟨hl, rfl⟩ | ⟨hl, hr⟩
  · exact hl
  · cases hr
    exact hl

theorem identity_left_refines (h : op.neutral? = some unit) :
    Refines r (.binary op (.const unit) r) := by
  intro s v hv
  rcases (evaluate_lattice_iff h).mp hv with ⟨hl, -⟩ | ⟨-, hr⟩
  · cases unit <;> cases hl
  · exact hr

theorem idempotence_refines (h : op.neutral? = some unit) : Refines l (.binary op l l) := by
  intro s v hv
  rcases (evaluate_lattice_iff h).mp hv with ⟨hl, rfl⟩ | ⟨-, hl⟩
  · exact hl
  · exact hl

theorem absorbs_iff {outer inner : Formula} :
    absorbs op outer inner = true ↔
      ∃ a b, inner = .binary op.dual a b ∧ (outer = a ∨ outer = b) := by
  unfold absorbs
  split
  · rename_i op' a b
    simp only [Bool.and_eq_true, Bool.or_eq_true, decide_eq_true_eq]
    constructor
    · rintro ⟨rfl, hab⟩
      exact ⟨a, b, rfl, hab⟩
    · rintro ⟨a', b', heq, hab⟩
      cases heq
      exact ⟨rfl, hab⟩
  · rename_i hno
    constructor
    · intro hf
      cases hf
    · rintro ⟨a, b, rfl, -⟩
      exact absurd rfl (hno _ _ _)

/-- A `dual` combination that does not have the neutral value of `op` has no operand that does. -/
theorem evaluate_of_absorbs (h : op.neutral? = some unit) {s : Assignment} {outer inner : Formula}
    (ha : absorbs op outer inner = true) (hin : inner.evaluate s = .ok !unit) :
    outer.evaluate s = .ok !unit := by
  obtain ⟨a, b, rfl, ho⟩ := absorbs_iff.mp ha
  rcases (evaluate_lattice_iff (neutral_dual h)).mp hin with ⟨-, hc⟩ | ⟨hva, hvb⟩
  · cases unit <;> cases hc
  · rcases ho with rfl | rfl
    · exact hva
    · exact hvb

theorem absorption_left_refines (h : op.neutral? = some unit) (ha : absorbs op l r = true) :
    Refines l (.binary op l r) := by
  intro s v hv
  rcases (evaluate_lattice_iff h).mp hv with ⟨hl, rfl⟩ | ⟨hl, hr⟩
  · exact hl
  · by_cases hvu : v = unit
    · rw [hvu]; exact hl
    · obtain rfl : v = !unit := Bool.eq_not.mpr hvu
      exact evaluate_of_absorbs h ha hr

theorem absorption_right_refines (h : op.neutral? = some unit) (ha : absorbs op r l = true) :
    Refines r (.binary op l r) := by
  intro s v hv
  rcases (evaluate_lattice_iff h).mp hv with ⟨hl, rfl⟩ | ⟨-, hr⟩
  · exact evaluate_of_absorbs h ha hl
  · exact hr

theorem applyLattice_refines (h : op.neutral? = some unit)
    (happ : rule.applyLattice op unit l r = some g) : Refines g (.binary op l r) := by
  cases rule with
  | complement =>
    obtain ⟨ho, ⟨⟩⟩ := Option.ite_none_right_eq_some.mp happ
    exact complement_refines h ho
  | annihilation =>
    obtain ⟨ha, ⟨⟩⟩ := Option.ite_none_right_eq_some.mp happ
    exact annihilation_refines h (by simpa using ha)
  | identity =>
    rw [applyLattice] at happ
    split at happ
    · rename_i hr
      obtain rfl := Option.some.inj happ
      exact hr ▸ identity_right_refines h
    · obtain ⟨hl, ⟨⟩⟩ := Option.ite_none_right_eq_some.mp happ
      exact hl ▸ identity_left_refines h
  | idempotence =>
    obtain ⟨hlr, ⟨⟩⟩ := Option.ite_none_right_eq_some.mp happ
    exact hlr ▸ idempotence_refines h
  | absorption =>
    rw [applyLattice] at happ
    split at happ
    · rename_i ha
      obtain rfl := Option.some.inj happ
      exact absorption_left_refines h ha
    · obtain ⟨ha, ⟨⟩⟩ := Option.ite_none_right_eq_some.mp happ
      exact absorption_right_refines h ha
  | implicationElimination | doubleNegation | negatedConstant | deMorgan => cases happ

/-- The law of De Morgan, for both connectives: negations move out of `op`, which becomes `dual`. -/
theorem deMorgan_refines (h : op.neutral? = some unit) :
    Refines (.binary op.dual l r) (.neg (.binary op (.neg l) (.neg r))) := by
  intro s v hv
  refine (evaluate_lattice_iff (neutral_dual h)).mpr ?_
  rcases (evaluate_lattice_iff h).mp (evaluate_neg_iff.mp hv) with ⟨hl, hvu⟩ | ⟨hl, hr⟩
  · exact Or.inl ⟨evaluate_neg_iff.mp hl, by rw [Bool.not_not]; exact Bool.not_inj hvu⟩
  · refine Or.inr ⟨evaluate_neg_iff.mp hl, ?_⟩
    have hr := evaluate_neg_iff.mp hr
    rwa [Bool.not_not] at hr

theorem applyNegation_refines {a : Formula} (happ : rule.applyNegation a = some g) :
    Refines g (.neg a) := by
  unfold applyNegation at happ
  split at happ
  case h_1 b =>
    obtain rfl := Option.some.inj happ
    intro s v hv
    have hb := evaluate_neg_iff.mp (evaluate_neg_iff.mp hv)
    rwa [Bool.not_not] at hb
  case h_2 b =>
    obtain rfl := Option.some.inj happ
    intro s v hv
    cases evaluate_neg_iff.mp hv
    rw [Bool.not_not]; rfl
  case h_3 b c =>
    obtain rfl := Option.some.inj happ
    exact deMorgan_refines (show Connective.and.neutral? = some true from rfl)
  case h_4 b c =>
    obtain rfl := Option.some.inj happ
    exact deMorgan_refines (show Connective.or.neutral? = some false from rfl)
  case h_5 => cases happ

/-- An implication looks at its operands as `¬ l ⋁ r` does. -/
theorem implication_refines : Refines (.binary .or (.neg l) r) (.binary .implies l r) := by
  intro s v hv
  have hor : Connective.or.neutral? = some false := rfl
  refine (evaluate_lattice_iff hor).mpr ?_
  obtain ⟨b, hb, hsettled | ⟨hopen, hr⟩⟩ := evaluate_binary_iff.mp hv
  · cases b
    · exact Or.inl ⟨evaluate_neg_iff.mpr hb, (Option.some.inj hsettled).symm⟩
    · cases hsettled
  · cases b
    · cases hopen
    · exact Or.inr ⟨evaluate_neg_iff.mpr hb, hr⟩

/-- **Every law keeps every truth value** of the node that it replaces. -/
theorem apply_refines (happ : rule.apply f = some g) : Refines g f := by
  unfold apply at happ
  split at happ
  · exact applyNegation_refines happ
  · rename_i op l r
    split at happ
    · rename_i unit h
      exact applyLattice_refines h happ
    · rename_i h
      obtain ⟨-, ⟨⟩⟩ := Option.ite_none_right_eq_some.mp happ
      cases op with
      | and => cases h
      | or => cases h
      | implies => exact implication_refines
  · cases happ

/-! ## A law somewhere in the formula -/

theorem applyFirst_refines (happ : rule.applyFirst f = some g) : Refines g f := by
  refine applyFirst_lift (R := fun f g => Refines g f) ?_ ?_ ?_ ?_ happ
  · exact fun _ _ hroot => apply_refines hroot
  · exact fun _ _ ha => ha.neg
  · exact fun op _ _ r hl => hl.binary op (.refl r)
  · exact fun op l _ _ hr => (Refines.refl l).binary op hr

end Rule

/-! ## A run of laws -/

/-- **A run keeps every truth value**, however long it is. -/
theorem Simplification.run_refines (rules : List Rule) (n : Nat) (f : Formula) :
    (run rules n f).result.Refines f :=
  run_lift (R := fun f g => Formula.Refines g f) .refl (fun _ _ _ hfg hgh => hgh.trans hfg)
    (fun _ _ _ _ happ => Rule.applyFirst_refines happ) n f

/-- **Simplification is sound on partial assignments**: the result has every truth value that the
formula has. If all variables of the formula are covered both have a value, and the same; and an
error of the result is never new. -/
theorem Formula.evaluate_simplify (f : Formula) (rules : List Rule) (cap : Int) (s : Assignment) :
    (∀ v, f.evaluate s = .ok v → (f.simplify rules cap).result.evaluate s = .ok v) ∧
      ((∀ x ∈ names [f], (s x).isSome) →
        ∃ v, f.evaluate s = .ok v ∧ (f.simplify rules cap).result.evaluate s = .ok v) ∧
      (∀ e, (f.simplify rules cap).result.evaluate s = .error e →
        ∃ e', f.evaluate s = .error e') := by
  have hrun : (f.simplify rules cap).result.Refines f := Simplification.run_refines rules cap.toNat f
  refine ⟨hrun s, fun hcov => ?_, fun e he => ?_⟩
  · obtain ⟨v, hv⟩ := f.exists_evaluate hcov
    exact ⟨v, hv, hrun s v hv⟩
  · cases hf : f.evaluate s with
    | error e' => exact ⟨e', rfl⟩
    | ok v =>
      rw [hrun s v hf] at he
      cases he

/-- `(A ⋁ B) ⋀ A` with `B` left open. -/
theorem Formula.evaluate_simplify_absorbed :
    let f : Formula := .binary .and (.binary .or (.var "A") (.var "B")) (.var "A")
    let s := Assignment.ofList [("A", true)]
    f.evaluate s = .ok true ∧ (f.simplify Rule.catalog 1000).result.evaluate s = .ok true := by
  refine ⟨rfl, (Formula.evaluate_simplify _ _ _ _).1 true rfl⟩

end Propositional
