import Mathlib.Data.List.Chain
import Propositional.Formula.Parse

/-!
# What the reader looks at

The reader looks at the kind of a token, and at the text of a name, but never at where the token
stands or how a connective or a constant is spelled. Which tokens may follow each other is narrower
than what a text can hold; here it matters that a connective with two operands never follows another
one.

* `Token.Alike`: tokens between which the reader sees no difference. `Formula.ofTokens_of_alike`
  says that it reads the same formula from them.
* `Token.Apart`: `Formula.isChain_apart_of_ofTokens` says that in what is read no two neighbours are
  connectives with two operands.
-/

namespace Propositional

variable {t u : Token} {ts us : List Token} {r r' : Reading} {f : Formula}

namespace Token

/-- The reader sees no difference between the tokens. -/
structure Alike (t u : Token) : Prop where
  kind : t.kind = u.kind
  text : t.kind = .name → t.text = u.text

/-- Not both tokens are connectives with two operands. -/
def Apart (t u : Token) : Prop :=
  ∀ op op' : Connective, t.kind = .binary op → u.kind ≠ .binary op'

end Token

namespace Reading

theorem shiftAll_of_alike (h : List.Forall₂ Token.Alike ts us) (r : Reading)
    (hr : r.shiftAll ts = .ok r') : r.shiftAll us = .ok r' := by
  induction h generalizing r with
  | nil => exact hr
  | @cons t u ts us htu _ ih =>
    rw [shiftAll] at hr ⊢
    rw [← shift_congr htu.kind htu.text]
    split at hr
    · exact ih _ hr
    · cases hr

/-- Behind a connective with two operands an operand is needed. -/
theorem operand_of_shift {op : Connective} (ht : t.kind = .binary op) (h : r.shift t = some r') :
    r'.operand = none := by
  obtain ⟨fs, _ | f⟩ := r
  · rw [shift_none_eq_none (Or.inl ⟨op, ht⟩)] at h
    cases h
  · rw [shift_binary ht rfl] at h
    obtain rfl := Option.some.inj h
    rfl

theorem isChain_apart_of_shiftAll (h : r.shiftAll ts = .ok r') : ts.IsChain Token.Apart := by
  induction ts generalizing r with
  | nil => exact .nil
  | cons t ts ih =>
    rw [shiftAll] at h
    split at h
    · rename_i r₁ ht
      cases ts with
      | nil => exact .singleton t
      | cons u us =>
        refine List.isChain_cons_cons.mpr ⟨fun op op' hop hop' => ?_, ih h⟩
        obtain ⟨fs, operand⟩ := r₁
        obtain rfl : operand = none := operand_of_shift hop ht
        rw [shiftAll, shift_none_eq_none (Or.inl ⟨op', hop'⟩)] at h
        cases h
    · cases h

end Reading

namespace Formula

/-- **From tokens that are alike the same formula is read.** -/
theorem ofTokens_of_alike (halike : List.Forall₂ Token.Alike ts us) (h : ofTokens ts = .ok f) :
    ofTokens us = .ok f := by
  obtain ⟨r, hr, hf⟩ := ofTokens_eq_ok_iff_shiftAll.mp h
  exact ofTokens_eq_ok_iff_shiftAll.mpr ⟨r, Reading.shiftAll_of_alike halike _ hr, hf⟩

/-- **No connective with two operands follows another one.** -/
theorem isChain_apart_of_ofTokens (h : ofTokens ts = .ok f) : ts.IsChain Token.Apart := by
  obtain ⟨r, hr, -⟩ := ofTokens_eq_ok_iff_shiftAll.mp h
  exact Reading.isChain_apart_of_shiftAll hr

end Formula

end Propositional
