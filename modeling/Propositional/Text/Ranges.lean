/-!
# Sets of characters as ascending ranges

A character property is a list of code point ranges in ascending order, both ends included.
`inRanges` walks the list and stops at the first range that ends past the code point.

* `inRanges_iff`: over ascending ranges the walk decides membership in one of them.
-/

namespace Propositional.Text

/-- Whether `n` lies in one of the ranges. The walk stops early, so the ranges must ascend. -/
def inRanges : List (Nat × Nat) → Nat → Bool
  | [], _ => false
  | (first, last) :: rest, n =>
    if n < first then false else if n ≤ last then true else inRanges rest n

/-- Every range starts at or past `bound`, and each starts past the end of the one before. -/
def Ascending : Nat → List (Nat × Nat) → Prop
  | _, [] => True
  | bound, (first, last) :: rest => bound ≤ first ∧ first ≤ last ∧ Ascending (last + 1) rest

instance Ascending.decidable : (bound : Nat) → (ranges : List (Nat × Nat)) →
    Decidable (Ascending bound ranges)
  | _, [] => .isTrue trivial
  | bound, (first, last) :: rest =>
    have := Ascending.decidable (last + 1) rest
    inferInstanceAs (Decidable (bound ≤ first ∧ first ≤ last ∧ Ascending (last + 1) rest))

theorem Ascending.bound_le {bound : Nat} {ranges : List (Nat × Nat)} (h : Ascending bound ranges)
    {r : Nat × Nat} (hr : r ∈ ranges) : bound ≤ r.1 := by
  induction ranges generalizing bound with
  | nil => cases hr
  | cons q rest ih =>
    obtain ⟨first, last⟩ := q
    simp only [Ascending] at h
    rcases List.mem_cons.mp hr with rfl | hr
    · exact h.1
    · have := ih h.2.2 hr
      omega

theorem inRanges_iff {bound : Nat} {ranges : List (Nat × Nat)} (h : Ascending bound ranges)
    (n : Nat) : inRanges ranges n = true ↔ ∃ r ∈ ranges, r.1 ≤ n ∧ n ≤ r.2 := by
  induction ranges generalizing bound with
  | nil => simp [inRanges]
  | cons q rest ih =>
    obtain ⟨first, last⟩ := q
    simp only [Ascending] at h
    simp only [inRanges, List.mem_cons, exists_eq_or_imp]
    split
    · rename_i hlt
      have : ¬ ∃ r ∈ rest, r.1 ≤ n ∧ n ≤ r.2 := fun ⟨r, hr, h₁, _⟩ => by
        have := h.2.2.bound_le hr
        omega
      simp only [this, or_false]
      simp; omega
    · split
      · simp; left; omega
      · rw [ih h.2.2]
        constructor
        · exact Or.inr
        · rintro (h' | h')
          · omega
          · exact h'

end Propositional.Text
