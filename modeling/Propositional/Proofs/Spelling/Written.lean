import Propositional.Proofs.Grammar.RoundTrip
import Propositional.Proofs.Spelling.Cut

/-!
# Written formulas are canonical

The written form of a formula uses the canonical symbols, so only its names could be taken for a
spelling, or change in lower case. The names of a formula that was read from a canonical text do
neither: they are words that were left when the text was cut, and its case was settled before.

* `StableName`: a name that is read as it is written. `stableName_of_parse` says that all names in a
  canonical text are.
* `Token.Operand`: a word that is read as a name or a constant. Stable names are such words, and so
  are the constants in any case.
* `ofText_chars`: the canonical text of a written formula with such names is the written formula,
  with its constants in lower case if case does not matter.
* `derives_scan_canonical`: and the formula is what it derives.
-/

namespace Propositional

open Text Token Spelling

variable {caseSensitive : Bool} {f : Formula} {c : Char} {cs : List Char}

/-- How a constant is spelled in a canonical text that was written by `Formula.chars`. -/
def Canonical.constantName : Bool → Bool → String
  | true, b => Formula.constantName b
  | false, true => "true"
  | false, false => "false"

/-- A name that is read as it is written: it spells no connective, and its case is settled. -/
structure StableName (caseSensitive : Bool) (x : String) : Prop extends LegalName x where
  not_reserved : ¬Reserved x.toList
  folded : Canonical.folded caseSensitive x.toList = x.toList

theorem stableName_iff {x : String} :
    StableName caseSensitive x ↔ LegalName x ∧ ¬Reserved x.toList ∧
      Canonical.folded caseSensitive x.toList = x.toList :=
  ⟨fun h => ⟨h.toLegalName, h.not_reserved, h.folded⟩,
    fun ⟨hlegal, hword, hfolded⟩ => ⟨hlegal, hword, hfolded⟩⟩

instance (caseSensitive : Bool) (x : String) : Decidable (StableName caseSensitive x) :=
  decidable_of_iff _ stableName_iff.symm

/-! ## Words that are operands -/

/-- A run of letters that spells no connective, and is read as a token of the kind `k`. -/
structure Token.Operand (k : Kind) (cs : List Char) : Prop where
  nonempty : cs ≠ []
  letters : ∀ c ∈ cs, isLetter c = true
  not_reserved : ¬Reserved cs
  wordKind : wordKind cs = k

theorem Token.Operand.stays {k : Kind} (h : Operand k cs) : Piece.Stays cs :=
  .letters h.nonempty h.letters h.not_reserved

theorem StableName.operand {x : String} (h : StableName caseSensitive x) :
    Operand .name x.toList :=
  ⟨h.nonempty, h.letters, h.not_reserved, h.toLegalName.wordKind⟩

/-- The constants in lower case are ASCII letters and no connectives. -/
theorem letters_constantName (b : Bool) :
    (Canonical.constantName false b).toList ≠ [] ∧
      (∀ c ∈ (Canonical.constantName false b).toList, c.toNat < 128 ∧ c.isAlpha = true) ∧
      (∀ s ∈ all, s.text ≠ (Canonical.constantName false b).toList) ∧
      wordKind (Canonical.constantName false b).toList = .truth b := by
  have hcheck (b : Bool) :
      ((Canonical.constantName false b).toList.all fun c => c.toNat < 128 && c.isAlpha) = true := by
    cases b <;> decide
  have hletters (c : Char) (hc : c ∈ (Canonical.constantName false b).toList) :
      c.toNat < 128 ∧ c.isAlpha = true := by
    have hmem := List.all_eq_true.mp (hcheck b) c hc
    rwa [Bool.and_eq_true, decide_eq_true_iff] at hmem
  refine ⟨?_, hletters, ?_⟩ <;> cases b <;> decide

/-- **A constant in any case is an operand.** -/
theorem operand_of_constant {b : Bool}
    (h : cs.map Char.toLower = (Canonical.constantName false b).toList) :
    (∀ c ∈ cs, c.toNat < 128) ∧ Operand (.truth b) cs := by
  obtain ⟨hne, hletters, hspells, hkind⟩ := letters_constantName b
  have hcs := letters_of_map_toLower hletters h
  have hascii : ∀ c ∈ cs, c.toNat < 128 := fun c hc => (hcs c hc).1
  refine ⟨hascii, ⟨?_, fun c hc => (hcs c hc).2, ?_, ?_⟩⟩
  · rintro rfl
    exact hne h.symm
  · rw [reserved_iff]
    rintro ⟨s, hs, -, hreads⟩
    have htext := hreads.map_caseless hs
    rw [map_caseless_of_ascii hascii, h] at htext
    exact hspells s hs htext.symm
  · have hlower : (Canonical.constantName false b).toList.map Char.toLower =
        (Canonical.constantName false b).toList := by cases b <;> decide
    rw [← hkind, wordKind, wordKind]
    simp only [h, hlower]

theorem operand_constantName (caseSensitive b : Bool) :
    Operand (.truth b) (Canonical.constantName caseSensitive b).toList := by
  refine (operand_of_constant ?_).2
  cases caseSensitive <;> cases b <;> decide

/-! ## Names in a canonical text -/

/-- **A name that is read from a canonical text is stable.** -/
theorem stableName_of_parse {text : List Char} {canonical : Canonical} {maxDepth : Int}
    (h : Canonical.ofText caseSensitive text = .ok canonical)
    (hparse : Formula.parse canonical.text maxDepth = .ok f) :
    ∀ x ∈ Formula.names [f], StableName caseSensitive x := by
  intro x hx
  have hd := ofTokens_eq_ok_iff.mp (Formula.parse_eq_ok_iff.mp hparse).1
  obtain ⟨t, ht, hk, rfl⟩ := hd.mem_names_iff.mp hx
  have hword := text_mem_words ht hk
  rw [Canonical.words_of_ofText h, List.mem_filter, decide_eq_true_iff] at hword
  refine ⟨legalName_of_mem_scanFrom ht hk, ?_, ?_⟩
  · rw [String.toList_ofList]
    exact hword.2
  · rw [String.toList_ofList]
    exact Canonical.folded_eq_self fun c hc => Or.inl (mem_of_mem_words hword.1 c hc).1

/-! ## The case of a written formula -/

theorem folded_append (caseSensitive : Bool) (cs ds : List Char) :
    Canonical.folded caseSensitive (cs ++ ds) =
      Canonical.folded caseSensitive cs ++ Canonical.folded caseSensitive ds := by
  cases caseSensitive <;> simp [Canonical.folded]

theorem folded_cons (hc : lower c = c) (caseSensitive : Bool) (cs : List Char) :
    Canonical.folded caseSensitive (c :: cs) = c :: Canonical.folded caseSensitive cs := by
  cases caseSensitive <;> simp [Canonical.folded, hc]

theorem folded_wrap (caseSensitive needed : Bool) (cs : List Char) :
    Canonical.folded caseSensitive (Formula.wrap needed cs) =
      Formula.wrap needed (Canonical.folded caseSensitive cs) := by
  have hopen : lower '(' = '(' := by decide
  have hclose : lower ')' = ')' := by decide
  cases needed with
  | false => rfl
  | true =>
    rw [Formula.wrap, if_pos rfl, List.cons_append, folded_cons hopen, folded_append,
      folded_cons hclose]
    cases caseSensitive <;> rfl

theorem folded_constantName (caseSensitive b : Bool) :
    Canonical.folded caseSensitive (Formula.constantName b).toList =
      (Canonical.constantName caseSensitive b).toList := by
  cases caseSensitive <;> cases b <;> decide

/-- **Only the constants change with the case.** -/
theorem folded_chars (f : Formula) (hx : ∀ x ∈ Formula.names [f], StableName caseSensitive x) :
    Canonical.folded caseSensitive f.chars =
      f.charsWith (Canonical.constantName caseSensitive) := by
  induction f with
  | var x => exact (hx x (by simp)).folded
  | const b => exact folded_constantName caseSensitive b
  | neg a ih =>
    rw [Formula.chars, folded_cons lower_negationSymbol, folded_wrap,
      ih (Formula.forall_mem_names_neg.mp hx)]
    rfl
  | binary op l r ihl ihr =>
    obtain ⟨hxl, hxr⟩ := Formula.forall_mem_names_binary.mp hx
    rw [Formula.chars, folded_append, folded_wrap, folded_cons (lower_connectiveSymbol op),
      folded_wrap, ihl hxl, ihr hxr]
    rfl

/-! ## The canonical text of a written formula -/

theorem stays_wrap {needed : Bool} (h : Piece.Stays cs) : Piece.Stays (Formula.wrap needed cs) := by
  cases needed with
  | false => exact h
  | true => exact (h.append_cons Piece.isKept_closeParen .nil).cons Piece.isKept_openParen

theorem stays_charsWith (f : Formula)
    (hx : ∀ x ∈ Formula.names [f], StableName caseSensitive x) :
    Piece.Stays (f.charsWith (Canonical.constantName caseSensitive)) := by
  induction f with
  | var x => exact (hx x (by simp)).operand.stays
  | const b => exact (operand_constantName caseSensitive b).stays
  | neg a ih =>
    exact (stays_wrap (ih (Formula.forall_mem_names_neg.mp hx))).cons Piece.isKept_negation
  | binary op l r ihl ihr =>
    obtain ⟨hxl, hxr⟩ := Formula.forall_mem_names_binary.mp hx
    exact (stays_wrap (ihl hxl)).append_cons (Piece.isKept_connective op) (stays_wrap (ihr hxr))

/-- **A written formula with stable names is canonical**, apart from the case of its constants. -/
theorem ofText_chars (f : Formula) (hx : ∀ x ∈ Formula.names [f], StableName caseSensitive x) :
    Canonical.ofText caseSensitive f.chars =
      .ok ⟨f.charsWith (Canonical.constantName caseSensitive),
        List.range ((f.charsWith (Canonical.constantName caseSensitive)).length + 1)⟩ := by
  have hstays := stays_charsWith f hx
  have hfolded := folded_chars f hx
  rw [← hfolded] at hstays ⊢
  rw [Canonical.ofText_of_stays hstays, Canonical.length_folded]

/-- **The formula is derived from the canonical text of its written form.** -/
theorem derives_scan_canonical (f : Formula)
    (hx : ∀ x ∈ Formula.names [f], StableName caseSensitive x) :
    Derives .implication (scan (f.charsWith (Canonical.constantName caseSensitive))) f := by
  refine (writes_charsWith (fun b => ?_) f fun x h => (hx x h).toLegalName).derives_scan
  have hoperand := operand_constantName caseSensitive b
  exact .word hoperand.nonempty hoperand.letters hoperand.wordKind

end Propositional
