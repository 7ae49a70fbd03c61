import Propositional.Proofs.Grammar.RoundTrip

/-!
# The written form has the fewest parentheses

A pair of parentheses is written exactly where an operand is too loose for its place. The grammar
asks for a pair in the same places: from a stratum that is tighter than the formula, the only way
down to its connective goes through parentheses. So no derivation of a formula has fewer of them.

* `Formula.groupCount`: the pairs in the written form of a formula, which `count_openParen_chars`
  counts in its characters.
* `Derives.groupCount_le` (the lower bound): each derivation has these pairs, and one more around a
  formula that is too loose for its stratum.
* `Formula.render_has_fewest_parentheses`: what this says of the texts that are parsed.
-/

namespace Propositional

open Text Token

variable {L M : Stratum} {ts : List Token} {f g : Formula} {op : Connective} {text : List Char}
  {maxDepth : Int}

namespace Formula

/-! ## The pairs that are written -/

/-- The number of operands within the formula that are too loose for their place. -/
def groupCount : Formula → Nat
  | var _ => 0
  | const _ => 0
  | neg a => (a.tooLoose .negation).toNat + a.groupCount
  | binary op l r =>
    ((l.tooLoose op.leftStratum).toNat + l.groupCount) +
      ((r.tooLoose op.rightStratum).toNat + r.groupCount)

theorem count_openParen_wrap (needed : Bool) (cs : List Char) :
    (wrap needed cs).count '(' = needed.toNat + cs.count '(' := by
  cases needed with
  | false => exact (Nat.zero_add _).symm
  | true =>
    have hclose : [')'].count '(' = 0 := by decide
    rw [wrap, if_pos rfl, List.cons_append, List.count_cons_self, List.count_append, hclose]
    exact Nat.add_comm _ 1

theorem count_openParen_legalName {x : String} (hx : LegalName x) : x.toList.count '(' = 0 := by
  refine List.count_eq_zero.mpr fun hmem => ?_
  cases hx.letters '(' hmem

/-- The opening parentheses of the written form are those of the operands that are too loose. -/
theorem count_openParen_chars (f : Formula) (hx : ∀ x ∈ names [f], LegalName x) :
    f.chars.count '(' = f.groupCount := by
  induction f with
  | var x => exact count_openParen_legalName (hx x (by simp))
  | const b => cases b <;> decide
  | neg a ih =>
    have ha := ih (forall_mem_names_neg.mp hx)
    have hsymbol : negationSymbol ≠ '(' := by decide
    rw [chars, List.count_cons_of_ne hsymbol, count_openParen_wrap, wrapsNegation_eq, ha,
      groupCount]
  | binary op l r ihl ihr =>
    obtain ⟨hxl, hxr⟩ := forall_mem_names_binary.mp hx
    have hsymbol : op.symbol ≠ '(' := by cases op <;> decide
    rw [chars, List.count_append, List.count_cons_of_ne hsymbol, count_openParen_wrap,
      count_openParen_wrap, wrapsLeft_eq, wrapsRight_eq, ihl hxl, ihr hxr, groupCount]

/-! ## The pairs that are needed -/

/-- What fits into a stratum fits into the looser ones. -/
theorem toNat_tooLoose_le (hM : M.strength ≤ L.strength) (f : Formula) :
    (f.tooLoose M).toNat ≤ (f.tooLoose L).toNat := by
  cases hloose : f.tooLoose M with
  | false => exact Nat.zero_le _
  | true =>
    have hL : f.tooLoose L = true :=
      decide_eq_true (Nat.lt_of_lt_of_le (of_decide_eq_true hloose) hM)
    exact Nat.le_of_eq (congrArg Bool.toNat hL.symm)

/-- Every formula fits into the loosest stratum. -/
theorem tooLoose_implication (f : Formula) : f.tooLoose .implication = false :=
  decide_eq_false (Nat.not_lt.mpr f.stratum.one_le_strength)

theorem tooLoose_stratum (f : Formula) : f.tooLoose f.stratum = false :=
  decide_eq_false (Nat.lt_irrefl _)

end Formula

/-- A connective needs no pair around itself in its own stratum, only those of its operands. -/
theorem groupCount_binary_le {us : List Token} {t : Token} (ht : t.kind = .binary op)
    (hf : f.groupCount + (f.tooLoose op.leftStratum).toNat ≤ ts.countP (·.kind == .openParen))
    (hg : g.groupCount + (g.tooLoose op.rightStratum).toNat ≤ us.countP (·.kind == .openParen)) :
    (Formula.binary op f g).groupCount + ((Formula.binary op f g).tooLoose op.stratum).toNat ≤
      (ts ++ t :: us).countP (·.kind == .openParen) := by
  have hbare : (Formula.binary op f g).tooLoose op.stratum = false :=
    (Formula.binary op f g).tooLoose_stratum
  rw [hbare, Formula.groupCount, List.countP_append, List.countP_cons_of_neg (by simp [ht])]
  simp only [Bool.toNat_false]
  omega

/-- **Each derivation needs the pairs that are written**: those of the operands within the formula,
and one around the formula itself if it is too loose for the stratum that derives it. -/
theorem Derives.groupCount_le (h : Derives L ts f) :
    f.groupCount + (f.tooLoose L).toNat ≤ ts.countP (·.kind == .openParen) := by
  induction h with
  | @ofDisjunction ts f _ ih =>
    exact Nat.le_trans (Nat.add_le_add_left (f.toNat_tooLoose_le (by decide)) _) ih
  | @ofConjunction ts f _ ih =>
    exact Nat.le_trans (Nat.add_le_add_left (f.toNat_tooLoose_le (by decide)) _) ih
  | @ofNegation ts f _ ih =>
    exact Nat.le_trans (Nat.add_le_add_left (f.toNat_tooLoose_le (by decide)) _) ih
  | @ofAtom ts f _ ih =>
    exact Nat.le_trans (Nat.add_le_add_left (f.toNat_tooLoose_le (by decide)) _) ih
  | implies _ ht _ ihf ihg => exact groupCount_binary_le ht ihf ihg
  | or _ ht _ ihf ihg => exact groupCount_binary_le ht ihf ihg
  | and _ ht _ ihf ihg => exact groupCount_binary_le ht ihf ihg
  | @neg ts t f ht _ ih =>
    have hbare : (Formula.neg f).tooLoose .negation = false := f.neg.tooLoose_stratum
    rw [hbare, Formula.groupCount, List.countP_cons_of_neg (by simp [ht])]
    simp only [Bool.toNat_false]
    omega
  | name ht | truth ht => exact Nat.zero_le _
  | @paren ts t u f ht _ hu ih =>
    -- the pair of this production is the one that the formula may need in an atom
    have hatom := Bool.toNat_le (f.tooLoose .atom)
    rw [List.countP_append, List.countP_cons_of_pos (by simp [ht])]
    omega

/-! ## The written form -/

theorem parse_groupCount_le (h : Formula.parse text maxDepth = .ok f) :
    f.groupCount ≤ text.count '(' := by
  have hd := (ofTokens_eq_ok_iff.mp (Formula.parse_eq_ok_iff.mp h).1).groupCount_le
  rw [f.tooLoose_implication, Token.scan, countP_openParen_scanFrom] at hd
  exact hd

/-- **The written form has the fewest parentheses.** A text that is parsed as `f` has at least as
many opening parentheses among its tokens as the written form of `f` has. So a text in which an
opening parenthesis of the written form and a closing one behind it are missing, such as a matching
pair, is not parsed as `f`. With legal names the bound is attained: the written form is parsed as
`f`, and all its opening parentheses are tokens. -/
theorem Formula.render_has_fewest_parentheses :
    (∀ (text : List Char) (maxDepth : Int) (f : Formula), Formula.parse text maxDepth = .ok f →
        f.render.toList.count '(' ≤ (Token.scan text).countP (·.kind == .openParen)) ∧
      (∀ (f : Formula) (pre mid post : List Char),
        f.render.toList = pre ++ '(' :: (mid ++ ')' :: post) →
          ∀ maxDepth : Int, Formula.parse (pre ++ (mid ++ post)) maxDepth ≠ .ok f) ∧
      (∀ (f : Formula) (maxDepth : Int), (∀ x ∈ Formula.names [f], LegalName x) →
        (f.depth : Int) ≤ maxDepth →
          Formula.parse f.render.toList maxDepth = .ok f ∧
            (Token.scan f.render.toList).countP (·.kind == .openParen) =
              f.render.toList.count '(') := by
  have hchars : ∀ f : Formula, f.render.toList = f.chars := fun f => String.toList_ofList
  refine ⟨fun text maxDepth f h => ?_, fun f pre mid post hsplit maxDepth h => ?_,
    fun f maxDepth hx hdepth => ?_⟩
  · rw [hchars, count_openParen_chars f (legalName_of_parse h), Token.scan,
      countP_openParen_scanFrom]
    exact parse_groupCount_le h
  · have hle := parse_groupCount_le h
    rw [← count_openParen_chars f (legalName_of_parse h), ← hchars, hsplit] at hle
    have hclose : (')' : Char) ≠ '(' := by decide
    simp only [List.count_append, List.count_cons_self, List.count_cons_of_ne hclose] at hle
    omega
  · rw [hchars]
    exact ⟨parse_chars_eq_ok_iff.mpr ⟨hx, hdepth⟩, countP_openParen_scanFrom 0 f.chars⟩

/-- `(A ➔ B) ➔ C` is read from a text with two pairs, written with one, and not read without. -/
theorem Formula.render_needs_the_parentheses :
    let f : Formula := .binary .implies (.binary .implies (.var "A") (.var "B")) (.var "C")
    Formula.parse "((A➔B))➔C".toList 3 = .ok f ∧
      f.render.toList.count '(' ≤ (Token.scan "((A➔B))➔C".toList).countP (·.kind == .openParen) ∧
      Formula.parse "(A➔B)➔C".toList 3 = .ok f ∧ Formula.parse "A➔B➔C".toList 3 ≠ .ok f := by
  intro f
  have hparse : Formula.parse "((A➔B))➔C".toList 3 = .ok f := by
    have hscan : Token.scan "((A➔B))➔C".toList = [⟨.openParen, ['('], 0⟩, ⟨.openParen, ['('], 1⟩,
        ⟨.name, ['A'], 2⟩, ⟨.binary .implies, ['➔'], 3⟩, ⟨.name, ['B'], 4⟩, ⟨.closeParen, [')'], 5⟩,
        ⟨.closeParen, [')'], 6⟩, ⟨.binary .implies, ['➔'], 7⟩, ⟨.name, ['C'], 8⟩] := by
      decide +kernel
    refine Formula.parse_eq_ok_iff.mpr ⟨?_, by decide +kernel⟩
    rw [hscan]
    rfl
  have hrender : f.render.toList = "(A➔B)➔C".toList := by decide
  have hx : ∀ x ∈ Formula.names [f], LegalName x := by decide +kernel
  obtain ⟨hfewest, hneeded, hwritten⟩ := Formula.render_has_fewest_parentheses
  refine ⟨hparse, hfewest _ 3 f hparse, ?_, hneeded f [] "A➔B".toList "➔C".toList hrender 3⟩
  rw [← hrender]
  exact (hwritten f 3 hx (by decide +kernel)).1

end Propositional
