import Propositional.Proofs.Grammar.Reading
import Propositional.Proofs.Token.Scan

/-!
# Parsing undoes writing

A written formula has the fewest parentheses that the strata allow: an operand is wrapped exactly if
its own stratum is looser than the one that the connective takes there. So the tokens of the written
form derive the formula, whatever text follows it, as long as no letter does.

* `Writes`: the characters `cs` stand for tokens from which `L` derives `f`, in front of any rest.
  There is one rule for each kind of formula (`Writes.name`, `.truth`, `.neg`, `.binary`) and one
  for parentheses (`Writes.wrap`).
* `writes_charsWith`: the written form of a formula with legal names, with the constants in any
  spelling that is read as these.
* `legalName_of_parse`: conversely every name of a parsed formula was a token, so it is legal.
* `parse_render_iff`: the round trip succeeds on the formulas with legal names within the limit on
  the depth and on no others; it makes `render` injective on them, and a canonical form of the texts
  that can be parsed.
-/

namespace Propositional

open Text Token

variable {L M : Stratum} {cs ds : List Char} {c : Char} {f g : Formula} {op : Connective}
  {x : String}

/-! ## Wrapping and strata -/

namespace Formula

/-- The tightest stratum of the formula without parentheses around it. -/
def stratum : Formula → Stratum
  | var _ => .atom
  | const _ => .atom
  | neg _ => .negation
  | binary op _ _ => op.stratum

theorem strength_stratum (f : Formula) : f.stratum.strength = f.precedence := by
  cases f with
  | binary op l r => exact op.strength_stratum
  | _ => rfl

/-- Whether the formula needs parentheses to stand where `L` is taken. -/
def tooLoose (L : Stratum) (f : Formula) : Bool := f.stratum.strength < L.strength

theorem strength_le_of_tooLoose (h : f.tooLoose L = false) : L.strength ≤ f.stratum.strength :=
  Nat.le_of_not_lt (of_decide_eq_false h)

theorem wrapsNegation_eq (f : Formula) : decide (f.precedence < 4) = f.tooLoose .negation := by
  rw [tooLoose, strength_stratum]
  rfl

/-- **A left operand is wrapped exactly if it is too loose** for what the connective takes there. -/
theorem wrapsLeft_eq (op : Connective) (f : Formula) :
    wrapsLeft op f = f.tooLoose op.leftStratum := by
  rw [wrapsLeft, tooLoose, strength_stratum, Bool.eq_iff_iff]
  simp only [Bool.or_eq_true, Bool.and_eq_true, decide_eq_true_eq, beq_iff_eq]
  cases op with
  | and | or => simp [Connective.groupsRight, Connective.precedence, Connective.leftStratum,
      Stratum.strength]
  | implies =>
    simp only [Connective.groupsRight, Connective.precedence, Connective.leftStratum,
      Stratum.strength, true_and]
    omega

theorem wrapsRight_eq (op : Connective) (f : Formula) :
    wrapsRight op f = f.tooLoose op.rightStratum := by
  rw [wrapsRight, tooLoose, strength_stratum, Bool.eq_iff_iff]
  simp only [Bool.or_eq_true, Bool.and_eq_true, decide_eq_true_eq, beq_iff_eq]
  cases op with
  | and | or =>
    simp only [Connective.groupsRight, Connective.precedence, Connective.rightStratum,
      Stratum.strength, Bool.not_false, true_and]
    omega
  | implies => simp [Connective.groupsRight, Connective.precedence, Connective.rightStratum,
      Stratum.strength]

end Formula

/-! ## Characters that stand for a formula -/

/-- In front of any rest that begins with no letter, the characters `cs` are scanned as tokens of
their own, and `L` derives `f` from these. -/
def Writes (L : Stratum) (cs : List Char) (f : Formula) : Prop :=
  ∀ (n : Nat) (rest : List Char), rest.takeWhile isLetter = [] →
    ∃ ts, scanFrom n (cs ++ rest) = ts ++ scanFrom (n + cs.length) rest ∧ Derives L ts f

/-- A character that is a token wherever it stands. -/
def IsSymbol (c : Char) : Prop := isSeparator c = false ∧ isLetter c = false

instance : DecidablePred IsSymbol := fun c =>
  inferInstanceAs (Decidable (isSeparator c = false ∧ isLetter c = false))

theorem IsSymbol.takeWhile (h : IsSymbol c) (cs : List Char) :
    (c :: cs).takeWhile isLetter = [] := by
  rw [List.takeWhile_cons, h.2]
  rfl

theorem isSymbol_openParen : IsSymbol '(' := by decide

theorem isSymbol_closeParen : IsSymbol ')' := by decide

theorem isSymbol_negation : IsSymbol negationSymbol := by decide

theorem isSymbol_connective (op : Connective) : IsSymbol op.symbol := by
  cases op <;> decide +kernel

theorem symbolKind_connective (op : Connective) : symbolKind op.symbol = .binary op := by
  cases op <;> decide

theorem Writes.weaken (h : Writes L cs f) (hM : M.strength ≤ L.strength) : Writes M cs f := by
  intro n rest hrest
  obtain ⟨ts, hscan, hd⟩ := h n rest hrest
  exact ⟨ts, hscan, hd.weaken hM⟩

theorem Writes.word {b : Bool} (hne : cs ≠ []) (hl : ∀ c ∈ cs, isLetter c = true)
    (hk : wordKind cs = .truth b) : Writes .atom cs (.const b) := by
  intro n rest hrest
  exact ⟨[⟨wordKind cs, cs, n⟩], scanFrom_word hne hl hrest, .truth hk⟩

theorem Writes.name (hx : LegalName x) : Writes .atom x.toList (.var x) := by
  intro n rest hrest
  refine ⟨[⟨wordKind x.toList, x.toList, n⟩], scanFrom_word hx.nonempty hx.letters hrest, ?_⟩
  have := Derives.name (t := ⟨wordKind x.toList, x.toList, n⟩) hx.wordKind
  rwa [String.ofList_toList] at this

theorem Writes.truth (b : Bool) : Writes .atom (Formula.constantName b).toList (.const b) := by
  have hne : (Formula.constantName b).toList ≠ [] := by cases b <;> decide
  have hl : (Formula.constantName b).toList.all isLetter = true := by cases b <;> decide
  have hk : wordKind (Formula.constantName b).toList = .truth b := by cases b <;> decide
  exact .word hne (List.all_eq_true.mp hl) hk

theorem Writes.neg (h : Writes .negation cs f) :
    Writes .negation (negationSymbol :: cs) (.neg f) := by
  intro n rest hrest
  obtain ⟨ts, hscan, hd⟩ := h (n + 1) rest hrest
  have hk : symbolKind negationSymbol = .negation := by decide
  refine ⟨⟨symbolKind negationSymbol, [negationSymbol], n⟩ :: ts, ?_, .neg hk hd⟩
  rw [List.cons_append, scanFrom_symbol isSymbol_negation.1 isSymbol_negation.2, hscan,
    List.length_cons, List.cons_append, Nat.add_right_comm, Nat.add_assoc]

theorem Writes.paren (h : Writes .implication cs f) : Writes .atom ('(' :: cs ++ [')']) f := by
  intro n rest hrest
  obtain ⟨ts, hscan, hd⟩ := h (n + 1) (')' :: rest) (isSymbol_closeParen.takeWhile rest)
  have ho : symbolKind '(' = .openParen := by decide
  have hc : symbolKind ')' = .closeParen := by decide
  refine ⟨⟨symbolKind '(', ['('], n⟩ :: ts ++ [⟨symbolKind ')', [')'], n + 1 + cs.length⟩], ?_,
    .paren ho hd hc⟩
  rw [List.append_assoc, List.cons_append, List.singleton_append,
    scanFrom_symbol isSymbol_openParen.1 isSymbol_openParen.2, hscan,
    scanFrom_symbol isSymbol_closeParen.1 isSymbol_closeParen.2]
  simp only [List.cons_append, List.append_assoc, List.nil_append, List.length_cons,
    List.length_append, List.length_nil]
  rw [show n + (cs.length + 1 + (0 + 1)) = n + 1 + cs.length + 1 by omega]

/-- **Wrapping where the stratum is too loose.** -/
theorem Writes.wrap {needed : Bool} (h : Writes L cs f)
    (hbare : needed = false → M.strength ≤ L.strength) : Writes M (Formula.wrap needed cs) f := by
  cases needed with
  | false => exact h.weaken (hbare rfl)
  | true =>
    refine (Writes.paren (h.weaken L.one_le_strength)).weaken ?_
    cases M <;> decide

theorem Writes.binary (hf : Writes op.leftStratum cs f) (hg : Writes op.rightStratum ds g) :
    Writes op.stratum (cs ++ op.symbol :: ds) (.binary op f g) := by
  intro n rest hrest
  have hop := isSymbol_connective op
  obtain ⟨ts, hscanf, hdf⟩ := hf n (op.symbol :: (ds ++ rest)) (hop.takeWhile _)
  obtain ⟨us, hscang, hdg⟩ := hg (n + cs.length + 1) rest hrest
  refine ⟨ts ++ ⟨symbolKind op.symbol, [op.symbol], n + cs.length⟩ :: us, ?_,
    .binary hdf (symbolKind_connective op) hdg⟩
  rw [List.append_assoc, List.cons_append, hscanf, scanFrom_symbol hop.1 hop.2, hscang]
  simp only [List.append_assoc, List.cons_append, List.length_append, List.length_cons]
  rw [show n + (cs.length + (ds.length + 1)) = n + cs.length + 1 + ds.length by omega]

/-- What stands for a formula is scanned as tokens that derive it. -/
theorem Writes.derives_scan (h : Writes L cs f) : Derives .implication (scan cs) f := by
  obtain ⟨ts, hscan, hd⟩ := h 0 [] rfl
  rw [List.append_nil, scanFrom, List.append_nil] at hscan
  rw [scan, hscan]
  exact hd.weaken L.one_le_strength

/-! ## The written formula -/

namespace Formula

/-- The characters of the written formula if its constants are spelled by `spell`. -/
def charsWith (spell : Bool → String) : Formula → List Char
  | var x => x.toList
  | const b => (spell b).toList
  | neg a => negationSymbol :: wrap (a.precedence < 4) (a.charsWith spell)
  | binary op l r =>
    wrap (wrapsLeft op l) (l.charsWith spell) ++
      op.symbol :: wrap (wrapsRight op r) (r.charsWith spell)

theorem charsWith_constantName (f : Formula) : f.charsWith constantName = f.chars := by
  induction f with
  | var x => rfl
  | const b => rfl
  | neg a ih => rw [charsWith, chars, ih]
  | binary op l r ihl ihr => rw [charsWith, chars, ihl, ihr]

end Formula

/-- **A formula with legal names is derived from its written form**, in its own stratum, whatever
spelling of the constants is read as these. -/
theorem writes_charsWith {spell : Bool → String}
    (hspell : ∀ b, Writes .atom (spell b).toList (.const b)) (f : Formula)
    (hx : ∀ x ∈ Formula.names [f], LegalName x) : Writes f.stratum (f.charsWith spell) f := by
  induction f with
  | var x => exact .name (hx x (by simp))
  | const b => exact hspell b
  | neg a ih =>
    have ha := ih (Formula.forall_mem_names_neg.mp hx)
    rw [Formula.charsWith, a.wrapsNegation_eq]
    exact .neg (ha.wrap Formula.strength_le_of_tooLoose)
  | binary op l r ihl ihr =>
    obtain ⟨hxl, hxr⟩ := Formula.forall_mem_names_binary.mp hx
    rw [Formula.charsWith, Formula.wrapsLeft_eq, Formula.wrapsRight_eq]
    exact .binary ((ihl hxl).wrap Formula.strength_le_of_tooLoose)
      ((ihr hxr).wrap Formula.strength_le_of_tooLoose)

theorem derives_scan_chars (f : Formula) (hx : ∀ x ∈ Formula.names [f], LegalName x) :
    Derives .implication (scan f.chars) f := by
  rw [← f.charsWith_constantName]
  exact (writes_charsWith Writes.truth f hx).derives_scan

/-! ## Names that are read -/

/-- **A formula that was parsed has legal names.** -/
theorem legalName_of_parse {text : List Char} {maxDepth : Int}
    (h : Formula.parse text maxDepth = .ok f) : ∀ x ∈ Formula.names [f], LegalName x := by
  intro x hx
  have hd := ofTokens_eq_ok_iff.mp (Formula.parse_eq_ok_iff.mp h).1
  obtain ⟨t, ht, hk, rfl⟩ := hd.mem_names_iff.mp hx
  exact legalName_of_mem_scanFrom ht hk

/-! ## The round trip -/

theorem parse_chars_eq_ok_iff {maxDepth : Int} :
    Formula.parse f.chars maxDepth = .ok f ↔
      (∀ x ∈ Formula.names [f], LegalName x) ∧ (f.depth : Int) ≤ maxDepth := by
  constructor
  · exact fun h => ⟨legalName_of_parse h, (Formula.parse_eq_ok_iff.mp h).2⟩
  · rintro ⟨hx, hdepth⟩
    exact Formula.parse_eq_ok_iff.mpr ⟨ofTokens_eq_ok_iff.mpr (derives_scan_chars f hx), hdepth⟩

theorem render_injective (hf : ∀ x ∈ Formula.names [f], LegalName x)
    (hg : ∀ x ∈ Formula.names [g], LegalName x) (h : f.render = g.render) : f = g := by
  have hchars : f.chars = g.chars := String.ofList_injective h
  have hdf := derives_scan_chars f hf
  rw [hchars] at hdf
  exact hdf.unique (derives_scan_chars g hg)

/-- **Parsing undoes writing, exactly where it can.** The written form of `f` is parsed as `f` if
and only if all names of `f` are legal and `f` is not too deep. So formulas with legal names are
written apart, and two texts that can be parsed have the same written form exactly if they are
parsed alike, whatever the limits on the depth. -/
theorem parse_render_iff :
    (∀ (f : Formula) (maxDepth : Int),
      Formula.parse f.render.toList maxDepth = .ok f ↔
        (∀ x ∈ Formula.names [f], LegalName x) ∧ (f.depth : Int) ≤ maxDepth) ∧
      (∀ f g : Formula, (∀ x ∈ Formula.names [f], LegalName x) →
        (∀ x ∈ Formula.names [g], LegalName x) → f.render = g.render → f = g) ∧
      (∀ (text text' : List Char) (maxDepth maxDepth' : Int) (f g : Formula),
        Formula.parse text maxDepth = .ok f → Formula.parse text' maxDepth' = .ok g →
          (f.render = g.render ↔ f = g)) := by
  refine ⟨fun f maxDepth => ?_, fun f g hf hg h => render_injective hf hg h, ?_⟩
  · rw [Formula.render, String.toList_ofList]
    exact parse_chars_eq_ok_iff
  · intro text text' maxDepth maxDepth' f g hf hg
    constructor
    · exact render_injective (legalName_of_parse hf) (legalName_of_parse hg)
    · rintro rfl
      rfl

/-- `(A ➔ B) ➔ C` and `A ➔ B ➔ C` are read back, and so they are written apart. -/
theorem parse_render_grouped :
    let f : Formula := .binary .implies (.binary .implies (.var "A") (.var "B")) (.var "C")
    let g : Formula := .binary .implies (.var "A") (.binary .implies (.var "B") (.var "C"))
    Formula.parse f.render.toList 3 = .ok f ∧ Formula.parse g.render.toList 3 = .ok g ∧
      (f.render = g.render ↔ f = g) ∧ f.render ≠ g.render := by
  intro f g
  have hf : ∀ x ∈ Formula.names [f], LegalName x := by decide +kernel
  have hg : ∀ x ∈ Formula.names [g], LegalName x := by decide +kernel
  have hparsef := (parse_render_iff.1 f 3).mpr ⟨hf, by decide +kernel⟩
  have hparseg := (parse_render_iff.1 g 3).mpr ⟨hg, by decide +kernel⟩
  have hne : f ≠ g := by decide
  exact ⟨hparsef, hparseg, parse_render_iff.2.2 _ _ 3 3 f g hparsef hparseg,
    fun h => hne (parse_render_iff.2.1 f g hf hg h)⟩

end Propositional
