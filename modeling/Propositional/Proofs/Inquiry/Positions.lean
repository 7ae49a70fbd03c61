import Propositional.Proofs.Inquiry.Faults

/-!
# Positions in a refusal

A violation is found in the canonical text, where every connective is one character, and is located
in the text as it was typed. There it points at what it names.

* `PointsAt`: a violation that points at what it names in the typed text. Of what does not depend on
  case it is said of the text as typed, of the rest in lower case if case does not matter.
* `pointsAt_of_relocate`: a violation with its position looked up in the offsets does.
* `refused_of_read`: a refusal is about such a violation.
* `refusal_points_at_text`: the refusals of all inquiries.
-/

namespace Propositional

open Text Spelling

variable {typed low : List Char} {text : String} {s : Settings} {canonical : Canonical}
  {v moved : Violation} {c d : Char} {p q n : Nat}

/-- The violation, in a text as typed, points at what it names. -/
inductive Violation.PointsAt (typed low : List Char) : Violation → Prop
  | illegal (c : Char) (p : Nat) (hl : isLetter c = false) (hk : Token.symbolKind c = .illegal)
      (hc : low[p]? = some c) : PointsAt typed low (.misplaced [c] p)
  | operand (word : List Char) (p : Nat) (hne : word ≠ []) (hl : ∀ c ∈ word, isLetter c = true)
      (hword : low.extract p (p + word.length) = word) : PointsAt typed low (.misplaced word p)
  | operator (s : Spelling) (p : Nat) (hs : s.LongestIn low p)
      (hspells : s.Spells (low.extract p (p + s.text.length))) :
      PointsAt typed low (.misplaced [s.symbol] p)
  | paren (c : Char) (p : Nat) (hparen : c = '(' ∨ c = ')') (hc : typed[p]? = some c) :
      PointsAt typed low (.misplaced [c] p)
  | unopened (p : Nat) (hc : typed[p]? = some ')') : PointsAt typed low (.missing '(' p)
  | unclosed : PointsAt typed low (.missing ')' typed.length)
  | unexpectedEnd : PointsAt typed low (.unexpectedEnd typed.length)

/-! ## Single characters -/

/-- Only a parenthesis has a parenthesis as its lower case. -/
theorem eq_of_lower_eq_paren (hparen : c = '(' ∨ c = ')') (h : lower d = c) : d = c := by
  by_cases hd : d.toNat < 128
  · have hall : ∀ n < 128, lower (Char.ofNat n) = '(' ∨ lower (Char.ofNat n) = ')' →
        lower (Char.ofNat n) = Char.ofNat n := by decide
    have hstays : lower d = '(' ∨ lower d = ')' → lower d = d := of_code d hd hall
    rw [h] at hstays
    exact (hstays hparen).symm
  · rcases toNat_lower_of_not_ascii (Nat.le_of_not_lt hd) with hge | hk | hzero
    · rw [h] at hge
      rcases hparen with rfl | rfl <;> exact absurd hge (by decide)
    · rw [h] at hk
      rcases hparen with rfl | rfl <;> exact absurd hk (by decide)
    · rw [h] at hzero
      rcases hparen with rfl | rfl <;> exact absurd hzero (by decide)

/-- A parenthesis stands in the text as typed where it stands in lower case. -/
theorem getElem?_of_folded {caseSensitive : Bool} (hparen : c = '(' ∨ c = ')')
    (h : (Canonical.folded caseSensitive typed)[p]? = some c) : typed[p]? = some c := by
  cases caseSensitive with
  | true => exact h
  | false =>
    rw [Canonical.folded, if_neg Bool.false_ne_true, List.getElem?_map] at h
    obtain ⟨d, hd, hlower⟩ := Option.map_eq_some_iff.mp h
    rw [hd, eq_of_lower_eq_paren hparen hlower]

/-- The symbol of a connective is a sign for it. -/
theorem sign_mem_all (hc : c = negationSymbol ∨ ∃ op : Connective, c = op.symbol) :
    ⟨[c], c, false⟩ ∈ Spelling.all := by
  rcases hc with rfl | ⟨op, rfl⟩
  · decide
  · cases op <;> decide

/-- Where the symbol of a connective stands a spelling stands. -/
theorem occursIn_of_symbol (hc : low[p]? = some c) : OccursIn ⟨[c], c, false⟩ low p := by
  refine ⟨?_, fun hw => by cases hw⟩
  show low.extract p (p + 1) = [c]
  exact extract_eq_cons_iff.mpr ⟨hc, by simp [List.extract_eq_take_drop]⟩

/-- **What stands for a token of one character is what the token names.** -/
theorem StandsFor.pointsAt {caseSensitive : Bool}
    (h : StandsFor (Canonical.folded caseSensitive typed) p q c) (hl : isLetter c = false)
    (hspells : ∀ s : Spelling, s.LongestIn (Canonical.folded caseSensitive typed) p →
      s.Spells ((Canonical.folded caseSensitive typed).extract p (p + s.text.length))) :
    Violation.PointsAt typed (Canonical.folded caseSensitive typed) (.misplaced [c] p) := by
  cases h with
  | spelling s hs hq hc =>
    subst hc
    exact .operator s p hs (hspells s hs)
  | single hq hc hnone =>
    rcases Token.symbolKind_cases c with hsymbol | hparen | hillegal
    · -- a connective is never left as it is, since its symbol is a spelling
      exact absurd (occursIn_of_symbol hc) (hnone _ (sign_mem_all hsymbol))
    · exact .paren c p hparen (getElem?_of_folded hparen hc)
    · exact .illegal c p hl hillegal hc

/-- A closing parenthesis stands for itself. -/
theorem StandsFor.closeParen (h : StandsFor low p q ')') : low[p]? = some ')' := by
  cases h with
  | spelling s hs hq hc =>
    have hno : ∀ s ∈ all, s.symbol ≠ ')' := by decide
    exact absurd hc.symm (hno s hs.mem)
  | single hq hc => exact hc

/-! ## Located violations -/

/-- **A violation that is looked up in the offsets points at what it names.** -/
theorem pointsAt_of_relocate (hc : Canonical.ofText s.caseSensitive typed = .ok canonical)
    (hblamed : v.BlamedIn canonical.text)
    (hmoved : v.relocate (fun i => canonical.offsets[i]?) = some moved)
    (hp : moved.position? = some p) :
    p ≤ typed.length ∧ ((∃ q, moved = .blank q) ∨
      moved.PointsAt typed (Canonical.folded s.caseSensitive typed)) := by
  obtain ⟨hsegments, hspelled⟩ := Canonical.segments_of_ofText hc
  rw [← Canonical.length_folded s.caseSensitive typed]
  cases hblamed with
  | blank =>
    obtain ⟨q, hq, rfl⟩ := Option.map_eq_some_iff.mp hmoved
    obtain rfl := Option.some.inj hp
    exact ⟨hsegments.offset_le hq, Or.inl ⟨q, rfl⟩⟩
  | token t ht =>
    obtain ⟨q, hq, rfl⟩ := Option.map_eq_some_iff.mp hmoved
    obtain rfl := Option.some.inj hp
    refine ⟨hsegments.offset_le hq, Or.inr ?_⟩
    cases ht with
    | word word n hne hl hword =>
      exact .operand word q hne hl (hsegments.extract_of_letters hl hword hq)
    | symbol c n hs hl hc =>
      obtain ⟨r, -, hpiece⟩ := hsegments.exists_piece hc hq
      exact hpiece.pointsAt hl (hspelled q (List.mem_of_getElem? hq))
  | unopened n hparen =>
    obtain ⟨q, hq, rfl⟩ := Option.map_eq_some_iff.mp hmoved
    obtain rfl := Option.some.inj hp
    obtain ⟨r, -, hpiece⟩ := hsegments.exists_piece hparen hq
    exact ⟨hsegments.offset_le hq,
      Or.inr (.unopened q (getElem?_of_folded (Or.inr rfl) hpiece.closeParen))⟩
  | unclosed =>
    obtain ⟨q, hq, rfl⟩ := Option.map_eq_some_iff.mp hmoved
    obtain rfl := Option.some.inj (hq.symm.trans hsegments.offset_end)
    obtain rfl := Option.some.inj hp
    exact ⟨Nat.le_refl _, Or.inr (Canonical.length_folded s.caseSensitive typed ▸ .unclosed)⟩
  | unexpectedEnd =>
    obtain ⟨q, hq, rfl⟩ := Option.map_eq_some_iff.mp hmoved
    obtain rfl := Option.some.inj (hq.symm.trans hsegments.offset_end)
    obtain rfl := Option.some.inj hp
    exact ⟨Nat.le_refl _, Or.inr (Canonical.length_folded s.caseSensitive typed ▸ .unexpectedEnd)⟩
  | tooBig count limit =>
    obtain rfl := Option.some.inj hmoved
    cases hp

namespace Inquiry

variable {r : Refusal}

/-! ## Refusals -/

/-- **A refusal is about the violation that the check finds**, located in the text as typed. -/
theorem refused_of_read (h : (read s text).outcome = .ok (.error r)) :
    ∃ canonical v moved, Canonical.ofText s.caseSensitive text.toList = .ok canonical ∧
      Violation.check s.limits canonical.text = some v ∧
        v.relocate (fun i => canonical.offsets[i]?) = some moved ∧
          r = ⟨moved.kind, moved.message s.language⟩ := by
  cases hc : Canonical.ofText s.caseSensitive text.toList with
  | error e =>
    rw [read_eq_unknownWord hc] at h
    cases h
  | ok canonical =>
    cases hcheck : Violation.check s.limits canonical.text with
    | none =>
      obtain ⟨f, hf⟩ := exists_read_of_check hc hcheck
      rw [hf] at h
      cases h
    | some v =>
      obtain ⟨moved, hmoved⟩ := exists_moved hc hcheck
      rw [read_eq_refused hc hcheck hmoved] at h
      cases h
      exact ⟨canonical, v, moved, rfl, hcheck, hmoved, rfl⟩

/-- What was refused after reading was refused when it was read. -/
theorem map_map_eq_refused {α β : Type} {x : Except Fault (Except Refusal α)} {g : α → β} :
    x.map (Except.map g) = .ok (.error r) ↔ x = .ok (.error r) := by
  rcases x with e | (r' | a) <;> simp [Except.map]

/-- **A refusal points at the text as it was typed.** Let an inquiry of any of the three kinds be
refused. Then its text has a canonical spelling, the check finds a violation there, and the refusal
is the message for the same violation, located in the typed text. If it has a position and is not
that of a blank text, the position is an index of the typed text, or its length, and

* at an illegal character, that character stands there,
* at a name or constant out of place, that word stands there,
* at a connective out of place, the longest spelling that stands there is one of that connective,
* at a parenthesis, without its partner or out of place, that parenthesis stands there,
* where something is missing at the end, it is the end. -/
theorem refusal_points_at_text
    (h : (simplify s text).outcome = .ok (.error r) ∨
      (simplifyAndTabulate s text).outcome = .ok (.error r) ∨
        (tabulate s text).outcome = .ok (.error r)) :
    ∃ canonical v moved, Canonical.ofText s.caseSensitive text.toList = .ok canonical ∧
      Violation.check s.limits canonical.text = some v ∧
        v.relocate (fun i => canonical.offsets[i]?) = some moved ∧
          r = ⟨moved.kind, moved.message s.language⟩ ∧
            ∀ p, moved.position? = some p → p ≤ text.toList.length ∧ ((∃ q, moved = .blank q) ∨
              moved.PointsAt text.toList (Canonical.folded s.caseSensitive text.toList)) := by
  rw [outcome_simplify, outcome_simplifyAndTabulate, outcome_tabulate, map_map_eq_refused,
    map_map_eq_refused, map_map_eq_refused, or_self, or_self] at h
  obtain ⟨canonical, v, moved, hc, hcheck, hmoved, hr⟩ := refused_of_read h
  exact ⟨canonical, v, moved, hc, hcheck, hmoved, hr, fun p hp =>
    pointsAt_of_relocate hc (Violation.blamedIn_of_check hcheck) hmoved hp⟩

/-- In `A and B && #` two connectives shrink before the illegal character, which is still found. -/
theorem refusal_points_at_text_illegal :
    (simplify {} "A and B && #").outcome =
        .ok (.error ⟨.invalidCharacter, "Illegal character '#' at position 11"⟩) ∧
      Violation.PointsAt "A and B && #".toList "a and b && #".toList (.misplaced ['#'] 11) := by
  have hc : Canonical.ofText false "A and B && #".toList =
      .ok ⟨"a ⋀ b ⋀ #".toList, [0, 1, 2, 5, 6, 7, 8, 10, 11, 12]⟩ := by decide +kernel
  have hcheck : Violation.check {} "a ⋀ b ⋀ #".toList = some (.misplaced ['#'] 8) := by
    decide +kernel
  have hrefused : (simplify {} "A and B && #").outcome =
      .ok (.error ⟨.invalidCharacter, "Illegal character '#' at position 11"⟩) := by
    have hmoved : (Violation.misplaced ['#'] 8).relocate
        (fun i => [0, 1, 2, 5, 6, 7, 8, 10, 11, 12][i]?) = some (.misplaced ['#'] 11) := by decide
    rw [outcome_simplify, map_map_eq_refused]
    refine (read_eq_refused hc hcheck hmoved).trans ?_
    decide +kernel
  obtain ⟨canonical, v, moved, hc', hcheck', hmoved, -, hplace⟩ :=
    refusal_points_at_text (Or.inl hrefused)
  obtain rfl := Except.ok.inj (hc.symm.trans hc')
  obtain rfl := Option.some.inj (hcheck.symm.trans hcheck')
  obtain rfl : Violation.misplaced ['#'] 11 = moved := Option.some.inj (Eq.trans (by decide) hmoved)
  have hfolded : Canonical.folded (Settings.caseSensitive {}) "A and B && #".toList =
      "a and b && #".toList := by decide +kernel
  rw [hfolded] at hplace
  obtain ⟨q, hblank⟩ | hpoints := (hplace 11 rfl).2
  · cases hblank
  · exact ⟨hrefused, hpoints⟩

end Inquiry

end Propositional
