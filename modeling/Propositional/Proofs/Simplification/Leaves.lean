import Propositional.Proofs.Formula.Count
import Propositional.Proofs.Simplification.Step

/-!
# A simplification adds no leaf and no name

A law keeps operands or drops them, and what it puts in for the dropped ones is one constant. So the
leaves do not become more, and every name of the result was there before. Only operators can become
more, by the negation that comes with the elimination of an implication.

* `Simplification.leafCount_run_le`, `Simplification.mem_names_of_run`: for a run.
-/

namespace Propositional

open Formula

variable {rule : Rule} {f g : Formula} {x : String}

namespace Rule

theorem leafCount_le_of_replaces (h : Replaces f g) : g.leafCount ≤ f.leafCount := by
  cases h with
  | constant hop l r b =>
    rw [leafCount_const]
    exact one_le_leafCount _
  | implication l r | doubleNegation a | negatedConstant b | deMorgan hop l r | left hop l r
  | right hop l r => simp

theorem leafCount_le_of_applyFirst (h : rule.applyFirst f = some g) :
    g.leafCount ≤ f.leafCount := by
  refine applyFirst_lift (R := fun f g => g.leafCount ≤ f.leafCount) ?_ ?_ ?_ ?_ h
  · exact fun f g happ => leafCount_le_of_replaces (replaces_of_apply happ)
  · intro a a' ha
    simpa using ha
  · intro op l l' r hl
    simpa using hl
  · intro op l r r' hr
    simpa using hr

theorem mem_names_of_replaces (h : Replaces f g) (hx : x ∈ names [g]) : x ∈ names [f] := by
  cases h with
  | implication l r | deMorgan hop l r => simpa using hx
  | doubleNegation a => simpa using hx
  | negatedConstant b | constant hop l r b => exact absurd hx not_mem_names_const
  | left hop l r => exact mem_names_binary.mpr (Or.inl hx)
  | right hop l r => exact mem_names_binary.mpr (Or.inr hx)

theorem mem_names_of_applyFirst (h : rule.applyFirst f = some g) :
    x ∈ names [g] → x ∈ names [f] := by
  refine applyFirst_lift (R := fun f g => x ∈ names [g] → x ∈ names [f]) ?_ ?_ ?_ ?_ h
  · exact fun f g happ => mem_names_of_replaces (replaces_of_apply happ)
  · intro a a' ha
    simpa only [mem_names_neg] using ha
  · intro op l l' r hl
    simpa only [mem_names_binary] using Or.imp_left hl
  · intro op l r r' hr
    simpa only [mem_names_binary] using Or.imp_right hr

end Rule

namespace Simplification

variable (rules : List Rule) (n : Nat) (f : Formula)

theorem leafCount_run_le : (run rules n f).result.leafCount ≤ f.leafCount :=
  run_lift (R := fun f g => g.leafCount ≤ f.leafCount) (fun _ => Nat.le_refl _)
    (fun _ _ _ hfg hgh => Nat.le_trans hgh hfg)
    (fun _ _ _ _ happ => Rule.leafCount_le_of_applyFirst happ) n f

/-- **Every name of the result is one of the formula.** -/
theorem mem_names_of_run : x ∈ names [(run rules n f).result] → x ∈ names [f] :=
  run_lift (R := fun f g => x ∈ names [g] → x ∈ names [f]) (fun _ hx => hx)
    (fun _ _ _ hfg hgh hx => hfg (hgh hx))
    (fun _ _ _ _ happ => Rule.mem_names_of_applyFirst happ) n f

end Simplification

end Propositional
