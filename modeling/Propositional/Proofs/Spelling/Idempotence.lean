import Propositional.Proofs.Spelling.Segmentation

/-!
# Canonical spelling is final

Cutting a text puts symbols next to what is left of it. No spelling comes about that way: the
symbols are no letters, so that no word becomes whole, and a sign of two characters could only be
completed by a `>`, which is no symbol. So a canonical text is cut into its own characters.

* `Piece.Settled`: a text that is cut into its own characters, whatever stands before it.
  `Becomes.settled` shows it for all that a text can become, one rule of `Becomes` after the other.
* `Becomes.at?_eq_none`: at a character that has stayed nothing is found afterwards.
* `Canonical.text_of_occursIn`: in a text that is its own canonical text only symbols stand.
* `Canonical.ofText_idempotent`: the canonical text of a canonical text.
-/

namespace Propositional

open Text Spelling

variable {before : Option Char} {c : Char} {cs rest word out : List Char} {s : Spelling}

namespace Spelling

theorem isKept_symbol (hs : s ∈ all) : Piece.IsKept s.symbol := by
  rcases symbol_eq s hs with h | ⟨op, h⟩
  · rw [h]
    exact Piece.isKept_negation
  · rw [h]
    exact Piece.isKept_connective op

theorem lower_symbol (hs : s ∈ all) : lower s.symbol = s.symbol := by
  rcases symbol_eq s hs with h | ⟨op, h⟩
  · rw [h]
    exact lower_negationSymbol
  · rw [h]
    exact lower_connectiveSymbol op

/-- What begins a sign is a sign itself, or it goes on with `>`. -/
theorem sign_goes_on : ∀ s ∈ all, s.isWord = false →
    (∃ s' ∈ all, s'.isWord = false ∧ s'.text = s.text.take 1) ∨ s.text.drop 1 = ['>'] := by
  decide

theorem symbol_ne_greater : ∀ s ∈ all, s.symbol ≠ '>' := by decide

end Spelling

namespace Piece

/-! ## Texts that are settled -/

/-- The text is cut into its own characters, whatever stands before it. -/
def Settled (cs : List Char) : Prop :=
  ∀ (n : Nat) (before : Option Char), cut n before cs = .ok (inPlace n cs)

theorem Settled.nil : Settled [] := by
  intro n before
  rw [cut]
  rfl

theorem Settled.cons (h : Settled cs)
    (hc : ∀ (n : Nat) (before : Option Char),
      cut n before (c :: cs) = (cut (n + 1) (some c) cs).map (⟨c, n⟩ :: ·)) :
    Settled (c :: cs) := by
  intro n before
  rw [hc, h]
  rfl

theorem Settled.append (h : Settled rest) (hne : word ≠ []) (hl : ∀ c ∈ word, isLetter c = true)
    (hend : rest.takeWhile isLetter = []) (hword : ¬Reserved word) : Settled (word ++ rest) := by
  intro n before
  obtain ⟨last, hlast⟩ := @keeps_word n before rest word hne hl hend hword
  rw [hlast, h, inPlace_append]
  rfl

/-! ## What a text becomes is settled -/

/-- What a text becomes begins as the text does, or with a symbol. -/
theorem Becomes.head? (h : Becomes cs out) :
    out.head? = cs.head? ∨ ∃ s ∈ all, out.head? = some s.symbol := by
  cases h with
  | nil => exact Or.inl rfl
  | symbol hs => exact Or.inr ⟨_, hs, rfl⟩
  | word hne =>
    obtain ⟨c, word, rfl⟩ := List.exists_cons_of_ne_nil hne
    exact Or.inl rfl
  | char => exact Or.inl rfl

theorem Becomes.mem (h : Becomes cs out) : ∀ c ∈ out, c ∈ cs ∨ ∃ s ∈ all, c = s.symbol := by
  induction h with
  | nil => exact fun c hc => absurd hc List.not_mem_nil
  | symbol hs _ _ _ ih =>
    intro c hc
    rcases List.mem_cons.mp hc with rfl | hc
    · exact Or.inr ⟨_, hs, rfl⟩
    · exact (ih c hc).imp_left (List.mem_append_right _)
  | word _ _ _ _ _ _ ih =>
    intro c hc
    rcases List.mem_append.mp hc with hc | hc
    · exact Or.inl (List.mem_append_left _ hc)
    · exact (ih c hc).imp_left (List.mem_append_right _)
  | char _ _ _ ih =>
    intro c hc
    rcases List.mem_cons.mp hc with rfl | hc
    · exact Or.inl List.mem_cons_self
    · exact (ih c hc).imp_left (List.mem_cons_of_mem _)

/-- **No sign comes about by what follows a character**: if no sign begins there in the text, none
does in what the text becomes. -/
theorem Becomes.at?_eq_none (h : Becomes rest out) (hc : isLetter c = false)
    (hnone : ∀ s ∈ all, s.isWord = false → ¬s.text <+: c :: rest) :
    at? before (c :: out) = none := by
  cases hat : at? before (c :: out) with
  | none => rfl
  | some s =>
    have hs := mem_all_of_at? hat
    obtain ⟨hsign, hprefix⟩ := prefix_of_at? hc hat
    obtain ⟨d, ds, hd⟩ := List.exists_cons_of_ne_nil (text_ne_nil hs)
    rw [hd, List.cons_prefix_cons] at hprefix
    obtain ⟨rfl, hprefix⟩ := hprefix
    rcases sign_goes_on s hs hsign with ⟨s', hs', hsign', htext⟩ | htext
    · refine absurd ?_ (hnone s' hs' hsign')
      rw [htext, hd]
      exact List.prefix_append [d] rest
    · -- the next character was not put there, so the sign stood in the text as well
      rw [hd] at htext
      obtain rfl : ds = ['>'] := htext
      have hgreater : out.head? = some '>' := by
        obtain ⟨post, rfl⟩ := hprefix
        rfl
      refine absurd ?_ (hnone s hs hsign)
      rcases h.head? with hhead | ⟨s', hs', hhead⟩
      · obtain ⟨post, rfl⟩ := List.head?_eq_some_iff.mp (hhead.symm.trans hgreater)
        rw [hd]
        exact List.prefix_append [d, '>'] post
      · exact absurd (Option.some.inj (hhead.symm.trans hgreater)) (symbol_ne_greater s' hs')

/-- **What a text becomes is settled.** -/
theorem Becomes.settled (h : Becomes cs out) : Settled out := by
  induction h with
  | nil => exact .nil
  | symbol hs _ _ _ ih => exact .cons ih fun _ _ => cut_cons_of_isKept (isKept_symbol hs)
  | word hne hl hword _ hout _ ih => exact .append ih hne hl hout hword
  | char hc hnone hrest ih =>
    exact .cons ih fun _ _ => cut_cons_of_none (hrest.at?_eq_none hc hnone)

end Piece

namespace Canonical

variable {caseSensitive : Bool} {text : List Char} {canonical : Canonical}

/-! ## Canonical texts -/

theorem ofText_of_settled (h : Piece.Settled (folded caseSensitive text)) :
    ofText caseSensitive text =
      .ok ⟨folded caseSensitive text, List.range (text.length + 1)⟩ :=
  ofText_of_cut_inPlace (h 0 none)

theorem folded_text_of_ofText (h : ofText caseSensitive text = .ok canonical) :
    folded caseSensitive canonical.text = canonical.text := by
  refine @folded_eq_self canonical.text caseSensitive text fun c hc => ?_
  rcases (becomes_of_ofText h).mem c hc with hmem | ⟨s, hs, rfl⟩
  · exact Or.inl hmem
  · exact Or.inr (lower_symbol hs)

/-- **Only symbols stand in a text that is its own canonical text.** -/
theorem text_of_occursIn {p : Nat} (h : ofText true text = .ok ⟨text, List.range (text.length + 1)⟩)
    (hs : s ∈ all) (hoccurs : s.OccursIn text p) : s.text = [s.symbol] := by
  have hshort : ∀ s ∈ all, s.text.length = 1 → s.isWord = false := by decide
  have hpos := List.length_pos_iff.mpr (text_ne_nil hs)
  have hp : p < text.length := by
    have hle := hoccurs.le_length hs
    omega
  have hsegments : Segments text 0 text (List.range (text.length + 1)) := (segments_of_ofText h).1
  obtain ⟨r, hr, hpiece⟩ := hsegments.exists_piece (List.getElem?_eq_getElem hp)
    (List.getElem?_range (Nat.lt_succ_of_lt hp))
  rw [List.getElem?_range (Nat.succ_lt_succ hp)] at hr
  obtain rfl := Option.some.inj hr
  cases hpiece with
  | spelling s' hs' hlength hsymbol =>
    -- the longest spelling is one character, so it is the one that stands there
    have hle := hs'.longest s hs hoccurs
    have hone : s.text.length = 1 := by omega
    have hone' : s'.text.length = 1 := by omega
    have hreads := hoccurs.reads
    have hreads' := hs'.occurs.reads
    rw [hone] at hreads
    rw [hone'] at hreads'
    obtain rfl := hreads.unique hs hs'.mem hreads'
    rw [reads_sign (hshort s hs hone)] at hreads
    rw [← hreads, ← hsymbol]
    exact extract_eq_cons_iff.mpr ⟨List.getElem?_eq_getElem hp, by simp [List.extract_eq_take_drop]⟩
  | single _ _ hnone => exact absurd hoccurs (hnone s hs)

/-- **Canonical spelling is final.** A canonical text is its own canonical text, with its case
ignored as before or respected, and each character is where it was. No spelling stands in it but the
symbols, and so none of its names is a word that is read as a connective. -/
theorem ofText_idempotent (h : ofText caseSensitive text = .ok canonical) :
    (∀ again, again = caseSensitive ∨ again = true →
        ofText again canonical.text =
          .ok ⟨canonical.text, List.range (canonical.text.length + 1)⟩) ∧
      (∀ s ∈ all, ∀ p, s.OccursIn canonical.text p → s.text = [s.symbol]) ∧
      (∀ t ∈ Token.scan canonical.text, t.kind = .name →
        ∀ s ∈ all, s.isWord = true → ¬s.Reads t.text) := by
  have hsettled := (becomes_of_ofText h).settled
  have hagain : ∀ again, again = caseSensitive ∨ again = true →
      ofText again canonical.text =
        .ok ⟨canonical.text, List.range (canonical.text.length + 1)⟩ := by
    intro again hcase
    have hfolded : folded again canonical.text = canonical.text := by
      rcases hcase with rfl | rfl
      · exact folded_text_of_ofText h
      · rfl
    have hcut : Piece.Settled (folded again canonical.text) := hfolded.symm ▸ hsettled
    rw [ofText_of_settled hcut, hfolded]
  refine ⟨hagain, fun s hs p hoccurs => text_of_occursIn (hagain true (Or.inr rfl)) hs hoccurs, ?_⟩
  intro t ht hk s hs hw hreads
  have hword := Token.text_mem_words ht hk
  rw [words_of_ofText h, List.mem_filter, decide_eq_true_iff] at hword
  exact hword.2 (reserved_iff.mpr ⟨s, hs, hw, hreads⟩)

/-- `A AND - > Not!B` keeps `-` and `>`, which are no spelling apart from each other. -/
theorem ofText_idempotent_mixed :
    ofText false "A AND - > Not!B".toList =
        .ok ⟨"a ⋀ - > ¬¬b".toList, [0, 1, 2, 5, 6, 7, 8, 9, 10, 13, 14, 15]⟩ ∧
      ofText false "a ⋀ - > ¬¬b".toList = .ok ⟨"a ⋀ - > ¬¬b".toList, List.range 12⟩ ∧
      ∀ t ∈ Token.scan "a ⋀ - > ¬¬b".toList, t.kind = .name →
        ∀ s ∈ all, s.isWord = true → ¬s.Reads t.text := by
  have h : ofText false "A AND - > Not!B".toList =
      .ok ⟨"a ⋀ - > ¬¬b".toList, [0, 1, 2, 5, 6, 7, 8, 9, 10, 13, 14, 15]⟩ := by decide +kernel
  obtain ⟨hagain, -, hnames⟩ := ofText_idempotent h
  exact ⟨h, hagain false (Or.inl rfl), hnames⟩

end Canonical

end Propositional
