import Propositional.Proofs.Spelling.Cut

/-!
# Texts without a canonical spelling

A word can be read as a connective without being spelled like one, because other letters are taken
for those of a word. Such a word is not in the table, and that is all that can go wrong: a text has
a canonical spelling unless there is such a word in it, and the first one is the error.

* `Misread`: the words in question.
* `failsAtMisread`: what goes wrong when a text is cut; `Canonical.failure?_ofText` for a whole
  text.
-/

namespace Propositional

open Text Spelling Outcome

variable {n : Nat} {before : Option Char} {c : Char} {cs rest word : List Char}

namespace Spelling

/-- A word that is read as a connective, with another letter in place of an `i` or an `s`. -/
def Misread (word : List Char) : Prop :=
  Reserved word ∧ ∃ c ∈ word, c = 'İ' ∨ c = 'ı' ∨ c = 'ſ'

instance : DecidablePred Misread := fun word =>
  inferInstanceAs (Decidable (Reserved word ∧ ∃ c ∈ word, c = 'İ' ∨ c = 'ı' ∨ c = 'ſ'))

/-- **What is read as a word is spelled like it unless it is misread.** -/
theorem spells_iff_not_misread {s : Spelling} (hs : s ∈ all) (hw : s.isWord = true)
    (h : s.Reads word) : s.Spells word ↔ ¬Misread word := by
  constructor
  · rintro hspells ⟨-, c, hc, hspecial⟩
    have hascii := hspells.ascii hs hw c hc
    rcases hspecial with rfl | rfl | rfl <;> exact absurd hascii (by decide)
  · intro hnot
    refine Decidable.byContradiction fun hspells => hnot ⟨?_, h.exists_special hs hspells⟩
    exact reserved_iff.mpr ⟨s, hs, hw, h⟩

end Spelling

/-- The error for a word that is not in the table. -/
def UnknownWord.ofWord (word : List Char) : UnknownWord := ⟨String.ofList (word.flatMap lowerFull)⟩

namespace Piece

/-- What goes wrong in a text is its first misread word. If a letter stands before the text, the
letters at its start are only the rest of a word. -/
def FailsAtMisread (cs : List Char) : Prop :=
  ∀ (n : Nat) (before : Option Char), (before.any isLetter = true → cs.takeWhile isLetter = []) →
    failure? (cut n before cs) = ((words cs).find? fun word => Misread word).map UnknownWord.ofWord

/-- A word that is not misread is kept or becomes a symbol, and one that is misread is the error. -/
theorem FailsAtMisread.append (hrest : FailsAtMisread rest) (hne : word ≠ [])
    (hl : ∀ c ∈ word, isLetter c = true) (hend : rest.takeWhile isLetter = []) :
    FailsAtMisread (word ++ rest) := by
  intro n before hbefore
  rw [words_append hne hl hend]
  by_cases hword : Reserved word
  · obtain ⟨s, hat, hw, hreads⟩ := exists_at?_of_reserved hne hl hend hbefore hword
    have hs := mem_all_of_at? hat
    have hspells := spells_iff_not_misread hs hw hreads
    rw [cut_append_of_some (hreads.length_eq hs) hat]
    by_cases hmisread : Misread word
    · rw [if_neg fun h => hspells.mp h hmisread, List.find?_cons_of_pos (by simpa using hmisread)]
      rfl
    · rw [if_pos (hspells.mpr hmisread), List.find?_cons_of_neg (by simpa using hmisread),
        failure?_map]
      exact hrest _ _ fun _ => hend
  · obtain ⟨last, hlast⟩ := @keeps_word n before rest word hne hl hend hword
    rw [hlast, failure?_map, List.find?_cons_of_neg (by simpa using fun h => hword h.1)]
    exact hrest _ _ fun _ => hend

/-- Where no letter stands nothing goes wrong. -/
theorem FailsAtMisread.cons (hc : isLetter c = false)
    (hrest : ∀ post, post.length < (c :: rest).length → FailsAtMisread post) :
    FailsAtMisread (c :: rest) := by
  intro n before _
  rw [words_cons_of_not_letter hc]
  cases hat : at? before (c :: rest) with
  | none =>
    rw [cut_cons_of_none hat, failure?_map]
    exact hrest rest (Nat.lt_succ_self _) _ _ (by simp [hc])
  | some s =>
    obtain ⟨post, hpost, hless, hbehind, hspells, hwords⟩ := exists_post_of_at? hc hat
    rw [words_cons_of_not_letter hc] at hwords
    rw [hpost] at hat
    rw [hpost, cut_append_of_some rfl hat, if_pos hspells, failure?_map, hwords]
    exact hrest post hless _ _ (by simp [hbehind])

theorem failsAtMisread (cs : List Char) : FailsAtMisread cs := by
  induction cs using words_induction with
  | nil =>
    intro n before _
    rw [cut]
    simp [words, failure?]
  | word word rest hne hl hend ih => exact ih.append hne hl hend
  | other c rest hc ih => exact .cons hc ih

end Piece

namespace Canonical

/-- **What keeps a text from a canonical spelling is its first misread word.** -/
theorem failure?_ofText (caseSensitive : Bool) (text : List Char) :
    failure? (ofText caseSensitive text) =
      ((words (folded caseSensitive text)).find? fun word => Misread word).map
        UnknownWord.ofWord := by
  rw [← Piece.failsAtMisread _ 0 none (by simp), ofText]
  cases Piece.cut 0 none (folded caseSensitive text) <;> rfl

end Canonical

end Propositional
