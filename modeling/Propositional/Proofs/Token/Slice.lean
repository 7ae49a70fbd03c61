import Propositional.Proofs.Token.Scan

/-!
# Tokens are slices of the text

A token is a run of letters or one other character, and it stands in the text at the index that it
keeps.

* `Token.FoundIn`: what a token of a text is. `foundIn_of_mem_scan` says it of all tokens of a scan.
-/

namespace Propositional.Token

open Text

variable {text cs : List Char} {t : Token} {p : Nat}

/-- A token that a scan can find in a text. -/
inductive FoundIn (text : List Char) : Token → Prop
  | word (word : List Char) (n : Nat) (hne : word ≠ []) (hl : ∀ c ∈ word, isLetter c = true)
      (hword : text.extract n (n + word.length) = word) : FoundIn text ⟨wordKind word, word, n⟩
  | symbol (c : Char) (n : Nat) (hs : isSeparator c = false) (hl : isLetter c = false)
      (hc : text[n]? = some c) : FoundIn text ⟨symbolKind c, [c], n⟩

theorem FoundIn.text_ne_nil (h : t.FoundIn text) : t.text ≠ [] := by
  cases h with
  | word word n hne hl hword => exact hne
  | symbol c n hs hl hc => exact List.cons_ne_nil c []

theorem FoundIn.start_lt (h : t.FoundIn text) : t.start < text.length := by
  cases h with
  | word word n hne hl hword =>
    have hlength := congrArg List.length hword
    have hpos := List.length_pos_iff.mpr hne
    rw [List.extract_eq_take_drop, List.length_take, List.length_drop] at hlength
    simp only
    omega
  | symbol c n hs hl hc => exact (List.getElem?_eq_some_iff.mp hc).1

/-- Only a closing parenthesis is taken for one. -/
theorem FoundIn.getElem?_of_closeParen (h : t.FoundIn text) (hk : t.kind = .closeParen) :
    text[t.start]? = some ')' := by
  cases h with
  | word word n hne hl hword =>
    have hk : wordKind word = .closeParen := hk
    exact absurd (isOperand_wordKind word) (by rw [hk]; decide)
  | symbol c n hs hl hc =>
    have hk : symbolKind c = .closeParen := hk
    rcases symbolKind_cases c with (rfl | ⟨op, rfl⟩) | (rfl | rfl) | hillegal
    · exact absurd hk (by decide)
    · exact absurd hk (by cases op <;> decide)
    · exact absurd hk (by decide)
    · exact hc
    · cases hk.symm.trans hillegal

theorem drop_add_one {c : Char} (h : text.drop p = c :: cs) : text.drop (p + 1) = cs := by
  rw [← List.drop_drop, h]
  rfl

theorem foundIn_of_mem_scanFrom (hcs : text.drop p = cs) (ht : t ∈ scanFrom p cs) :
    t.FoundIn text := by
  have hscans := scans_scanFrom p cs
  generalize scanFrom p cs = ts at hscans ht
  induction hscans with
  | nil p => cases ht
  | separator hs _ ih => exact ih (drop_add_one hcs) ht
  | @word p word rest ts hne hl hrest _ ih =>
    rcases List.mem_cons.mp ht with rfl | ht
    · refine .word word p hne hl ?_
      rw [List.extract_eq_take_drop, Nat.add_sub_cancel_left, hcs, List.take_left]
    · refine ih ?_ ht
      rw [← List.drop_drop, hcs, List.drop_left]
  | @symbol p c rest ts hs hl _ ih =>
    rcases List.mem_cons.mp ht with rfl | ht
    · refine .symbol c p hs hl ?_
      rw [← List.head?_drop, hcs]
      rfl
    · exact ih (drop_add_one hcs) ht

/-- **Every token that is found is a slice of the text.** -/
theorem foundIn_of_mem_scan (ht : t ∈ scan text) : t.FoundIn text :=
  foundIn_of_mem_scanFrom (List.drop_zero (l := text)) ht

end Propositional.Token
