import Propositional.Proofs.Token.Word

/-!
# What a scan finds

A text is a separator, a word or another character in front of a text, and a scan takes it so.
`Scans` says this as a relation; what is said of all scans is shown by induction on it.

* `scanFrom_separator`, `scanFrom_word`, `scanFrom_symbol`: the first token of a text, and that the
  scan goes on with the rest. A run of letters is taken whole, so it must end where the rest begins.
* `scans_iff`: the tokens that lie in a text are those of the scan.
* `legalName_of_mem_scanFrom`: every name that is found can be written.
* `illegal_of_mem_scanFrom_blank`: a blank text has no tokens but illegal ones.
* `length_scanFrom_le`: every token takes at least one character.
* `countP_openParen_scanFrom`: an opening parenthesis is a token wherever it stands.
-/

namespace Propositional.Token

open Text

variable {n : Nat} {c : Char} {cs word rest : List Char} {t : Token} {ts : List Token}

theorem isSeparator_iff : isSeparator c = true ↔ c = ' ' ∨ c = '\t' ∨ c = '\r' ∨ c = '\n' := by
  simp only [isSeparator, Bool.or_eq_true, beq_iff_eq, or_assoc]

theorem isBlank_of_isSeparator (h : isSeparator c = true) : isBlank c = true := by
  rcases isSeparator_iff.mp h with rfl | rfl | rfl | rfl <;> decide

theorem isSeparator_of_isLetter (h : isLetter c = true) : isSeparator c = false := by
  cases hs : isSeparator c with
  | false => rfl
  | true =>
    rw [isLetter_of_isBlank (isBlank_of_isSeparator hs)] at h
    cases h

theorem scanFrom_separator (hs : isSeparator c = true) :
    scanFrom n (c :: cs) = scanFrom (n + 1) cs := by
  rw [scanFrom, if_pos hs]

theorem scanFrom_symbol (hs : isSeparator c = false) (hl : isLetter c = false) :
    scanFrom n (c :: cs) = ⟨symbolKind c, [c], n⟩ :: scanFrom (n + 1) cs := by
  rw [scanFrom, hs, hl]
  rfl

/-- A run of letters is one token if no letter follows it. -/
theorem scanFrom_word (hne : word ≠ []) (hl : ∀ c ∈ word, isLetter c = true)
    (hrest : rest.takeWhile isLetter = []) :
    scanFrom n (word ++ rest) = ⟨wordKind word, word, n⟩ :: scanFrom (n + word.length) rest := by
  cases word with
  | nil => exact absurd rfl hne
  | cons c cs =>
    have hc : isLetter c = true := hl c List.mem_cons_self
    have hcs : ∀ a ∈ cs, isLetter a = true := fun a ha => hl a (List.mem_cons_of_mem c ha)
    rw [List.cons_append, scanFrom, isSeparator_of_isLetter hc, hc]
    simp only [Bool.false_eq_true, if_false, if_true, takeWhile_append hcs hrest,
      dropWhile_append hcs hrest]

/-! ## The tokens that are found -/

/-- The tokens lie in the text, whose first character has the index `n`. -/
inductive Scans : Nat → List Char → List Token → Prop
  | nil (n : Nat) : Scans n [] []
  | separator {n : Nat} {c : Char} {cs : List Char} {ts : List Token} (hs : isSeparator c = true)
      (h : Scans (n + 1) cs ts) : Scans n (c :: cs) ts
  | word {n : Nat} {word rest : List Char} {ts : List Token} (hne : word ≠ [])
      (hl : ∀ c ∈ word, isLetter c = true) (hrest : rest.takeWhile isLetter = [])
      (h : Scans (n + word.length) rest ts) :
      Scans n (word ++ rest) (⟨wordKind word, word, n⟩ :: ts)
  | symbol {n : Nat} {c : Char} {cs : List Char} {ts : List Token} (hs : isSeparator c = false)
      (hl : isLetter c = false) (h : Scans (n + 1) cs ts) :
      Scans n (c :: cs) (⟨symbolKind c, [c], n⟩ :: ts)

theorem scans_scanFrom (n : Nat) (cs : List Char) : Scans n cs (scanFrom n cs) := by
  fun_induction scanFrom n cs with
  | case1 n => exact .nil n
  | case2 n c rest hs ih => exact .separator hs ih
  | case3 n c rest hs hl word ih =>
    have hsplit : c :: rest = word ++ rest.dropWhile isLetter := by
      rw [List.cons_append, List.takeWhile_append_dropWhile]
    rw [hsplit]
    refine .word (List.cons_ne_nil _ _) (fun a ha => ?_) (takeWhile_dropWhile isLetter rest) ih
    rcases List.mem_cons.mp ha with rfl | ha
    · exact hl
    · exact List.all_eq_true.mp List.all_takeWhile a ha
  | case4 n c rest hs hl ih => exact .symbol (by simpa using hs) (by simpa using hl) ih

/-- **The tokens that lie in a text are those that a scan finds.** -/
theorem scans_iff : Scans n cs ts ↔ scanFrom n cs = ts := by
  constructor
  · intro h
    induction h with
    | nil n => rw [scanFrom]
    | separator hs _ ih => rw [scanFrom_separator hs, ih]
    | word hne hl hrest _ ih => rw [scanFrom_word hne hl hrest, ih]
    | symbol hs hl _ ih => rw [scanFrom_symbol hs hl, ih]
  · rintro rfl
    exact scans_scanFrom n cs

theorem length_scanFrom_le (n : Nat) (cs : List Char) : (scanFrom n cs).length ≤ cs.length := by
  have hscans := scans_scanFrom n cs
  generalize scanFrom n cs = ts at hscans ⊢
  induction hscans with
  | nil n => exact Nat.le_refl 0
  | separator hs _ ih => exact Nat.le_succ_of_le ih
  | word hne hl hrest _ ih =>
    have hpos := List.length_pos_iff.mpr hne
    rw [List.length_cons, List.length_append]
    omega
  | symbol hs hl _ ih => exact Nat.succ_le_succ ih

/-- A run of letters is an operand. -/
theorem isOperand_wordKind (word : List Char) : (wordKind word).isOperand = true := by
  simp only [wordKind]
  split
  · rfl
  · split <;> rfl

/-- No other character is. -/
theorem isOperand_symbolKind (c : Char) : (symbolKind c).isOperand = false := by
  unfold symbolKind
  repeat' split
  all_goals rfl

theorem symbolKind_ne_name (c : Char) : symbolKind c ≠ .name :=
  fun hk => absurd (isOperand_symbolKind c) (by rw [hk]; decide)

theorem symbolKind_eq_openParen_iff : symbolKind c = .openParen ↔ c = '(' := by
  constructor
  · intro h
    unfold symbolKind at h
    repeat' split at h
    all_goals first | assumption | cases h
  · rintro rfl
    decide

/-- **No opening parenthesis is hidden in a text**: each is a token of its own. -/
theorem countP_openParen_scanFrom (n : Nat) (cs : List Char) :
    (scanFrom n cs).countP (·.kind == .openParen) = cs.count '(' := by
  have hscans := scans_scanFrom n cs
  generalize scanFrom n cs = ts at hscans ⊢
  induction hscans with
  | nil n => rfl
  | @separator n c cs ts hs _ ih =>
    have hc : c ≠ '(' := by
      rintro rfl
      cases hs
    rw [ih, List.count_cons_of_ne hc]
  | @word n word rest ts hne hl hrest _ ih =>
    have hword : word.count '(' = 0 := List.count_eq_zero.mpr fun hmem => by cases hl '(' hmem
    have hkind : wordKind word ≠ .openParen :=
      fun hk => absurd (isOperand_wordKind word) (by rw [hk]; decide)
    rw [List.count_append, hword, Nat.zero_add, List.countP_cons_of_neg (by simpa using hkind), ih]
  | symbol hs hl _ ih =>
    rw [List.countP_cons, List.count_cons, ih]
    simp only [beq_iff_eq, symbolKind_eq_openParen_iff]

/-- A character is the symbol of a connective or a parenthesis, or it is illegal. -/
theorem symbolKind_cases (c : Char) :
    (c = negationSymbol ∨ ∃ op : Connective, c = op.symbol) ∨ (c = '(' ∨ c = ')') ∨
      symbolKind c = .illegal := by
  unfold symbolKind
  split
  · exact Or.inl (Or.inl ‹_›)
  · split
    · exact Or.inl (Or.inr ⟨.and, ‹_›⟩)
    · split
      · exact Or.inl (Or.inr ⟨.or, ‹_›⟩)
      · split
        · exact Or.inl (Or.inr ⟨.implies, ‹_›⟩)
        · split
          · exact Or.inr (Or.inl (Or.inl ‹_›))
          · split
            · exact Or.inr (Or.inl (Or.inr ‹_›))
            · exact Or.inr (Or.inr rfl)

/-- **Every name that is found can be written.** -/
theorem legalName_of_mem_scanFrom (ht : t ∈ scanFrom n cs) (hk : t.kind = .name) :
    LegalName (String.ofList t.text) := by
  have hscans := scans_scanFrom n cs
  generalize scanFrom n cs = ts at hscans ht
  induction hscans with
  | nil n => cases ht
  | separator hs _ ih => exact ih ht
  | @word n word rest ts hne hl hrest _ ih =>
    rcases List.mem_cons.mp ht with rfl | ht
    · obtain ⟨htrue, hfalse⟩ := wordKind_eq_name_iff.mp hk
      rw [← String.toList_ofList (l := word)] at hne hl htrue hfalse
      exact ⟨hne, hl, htrue, hfalse⟩
    · exact ih ht
  | symbol hs hl _ ih =>
    rcases List.mem_cons.mp ht with rfl | ht
    · exact absurd hk (symbolKind_ne_name _)
    · exact ih ht

/-- A blank text has no tokens but illegal ones: what separates tokens is skipped, and the other
blanks start none. -/
theorem illegal_of_mem_scanFrom_blank (hblank : cs.all isBlank = true) (ht : t ∈ scanFrom n cs) :
    t.kind = .illegal := by
  rw [List.all_eq_true] at hblank
  have hscans := scans_scanFrom n cs
  generalize scanFrom n cs = ts at hscans ht
  induction hscans with
  | nil n => cases ht
  | separator hs _ ih => exact ih (fun a ha => hblank a (List.mem_cons_of_mem _ ha)) ht
  | @word n word rest ts hne hl hrest _ ih =>
    obtain ⟨a, ha⟩ := List.exists_mem_of_ne_nil word hne
    have hno := isLetter_of_isBlank (hblank a (List.mem_append_left rest ha))
    rw [hl a ha] at hno
    cases hno
  | @symbol n c cs ts hs hl _ ih =>
    rcases List.mem_cons.mp ht with rfl | ht
    · exact symbolKind_of_isBlank (hblank c List.mem_cons_self)
    · exact ih (fun a ha => hblank a (List.mem_cons_of_mem c ha)) ht

end Propositional.Token
