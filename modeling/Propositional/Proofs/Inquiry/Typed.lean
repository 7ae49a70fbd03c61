import Propositional.Proofs.Inquiry.Stages
import Propositional.Proofs.Spelling.Typed

/-!
# However it is typed

A formula can be typed in many ways: with more parentheses than it needs, with any spelling of each
connective, in words or in signs that touch each other, and with any separators. All of them are
read as that formula, as long as its names cannot be taken for something else.

* `canonical_of_typed`: the canonical text of what was typed is scanned as the tokens that were
  meant.
* `read_of_typed`: so it is read as the formula of these tokens.
-/

namespace Propositional.Inquiry

open Token

variable {s : Settings} {text : String} {ts : List Token} {f : Formula}

/-- **What was typed becomes a canonical text of the tokens that were meant**, as the reader sees
them. -/
theorem canonical_of_typed (htokens : Formula.ofTokens ts = .ok f)
    (hnames : ∀ x ∈ Formula.names [f], StableName s.caseSensitive x)
    (htyped : Typed TypedAs ts text.toList) :
    ∃ c, Canonical.ofText s.caseSensitive text.toList = .ok c ∧
      List.Forall₂ Alike ts (scan c.text) := by
  have hd := ofTokens_eq_ok_iff.mp htokens
  have hstable (t : Token) (ht : t ∈ ts) : t.Stable s.caseSensitive :=
    fun hk => hnames _ (hd.mem_names_iff.mpr ⟨t, ht, hk, rfl⟩)
  obtain ⟨pieces, hcut, hwritten⟩ := (htyped.folded hstable).cut hstable
    (Formula.isChain_apart_of_ofTokens htokens) 0 none (by simp)
  refine ⟨⟨pieces.map (·.char), pieces.map (·.start) ++ [text.toList.length]⟩, ?_, hwritten.scan 0⟩
  rw [Canonical.ofText, hcut]

/-- **However a formula is typed, it is read as that formula.** Let the tokens `ts` be read as `f`:
they may be those of the written form of `f`, or have more parentheses. Let the text consist of
them, each connective in any of its spellings, words and constants in any case, with any separators
before, between and behind them, and at least one where two words would touch. If the names of `f`
are legal, spell no connective and are in lower case where case does not matter, and `f` keeps to
the limits, then the text is read as `f`. -/
theorem read_of_typed (htokens : Formula.ofTokens ts = .ok f)
    (htyped : Typed TypedAs ts text.toList)
    (hnames : ∀ x ∈ Formula.names [f], StableName s.caseSensitive x) (hadmits : s.limits.Admits f) :
    (read s text).outcome = .ok (.ok f) := by
  obtain ⟨c, hc, halike⟩ := canonical_of_typed htokens hnames htyped
  have hread := Formula.ofTokens_of_alike halike htokens
  have hdepth := f.depth_le_operatorCount
  have hoperators := hadmits.operators
  have hlimit := s.operators_lt_maxDepth
  exact read_eq_ok hc
    (check_eq_none_iff_admits.mpr ⟨f, ofTokens_eq_ok_iff.mp hread, hadmits⟩)
    (Formula.parse_eq_ok_iff.mpr ⟨hread, by omega⟩)

/-- `(a)=>!NOT b`, with a line feed behind it, is typed for the tokens of `(a)➔¬¬b`. -/
theorem read_of_typed_signs :
    let f : Formula := .binary .implies (.var "a") (.neg (.neg (.var "b")))
    Formula.ofTokens (scan "(a)➔¬¬b".toList) = .ok f ∧
      Typed TypedAs (scan "(a)➔¬¬b".toList) "(a)=>!NOT b\n".toList ∧
      (∀ x ∈ Formula.names [f], StableName false x) ∧
      (read {} "(a)=>!NOT b\n").outcome = .ok (.ok f) := by
  intro f
  have htokens : Formula.ofTokens (scan "(a)➔¬¬b".toList) = .ok f := by decide +kernel
  have hscan : scan "(a)➔¬¬b".toList = [⟨.openParen, ['('], 0⟩, ⟨.name, ['a'], 1⟩,
      ⟨.closeParen, [')'], 2⟩, ⟨.binary .implies, ['➔'], 3⟩, ⟨.negation, ['¬'], 4⟩,
      ⟨.negation, ['¬'], 5⟩, ⟨.name, ['b'], 6⟩] := by decide +kernel
  have hopen : TypedAs ⟨.openParen, ['('], 0⟩ ['('] := .openParen rfl
  have ha : TypedAs ⟨.name, ['a'], 1⟩ ['a'] := .name rfl
  have hclose : TypedAs ⟨.closeParen, [')'], 2⟩ [')'] := .closeParen rfl
  have himplies : TypedAs ⟨.binary .implies, ['➔'], 3⟩ ['=', '>'] :=
    .connective (s := .sign "=>" Connective.implies.symbol) (by decide +kernel) (by decide) (by decide)
  have hsign : TypedAs ⟨.negation, ['¬'], 4⟩ ['!'] :=
    .connective (s := .sign "!" negationSymbol) (by decide +kernel) (by decide) (by decide)
  have hword : TypedAs ⟨.negation, ['¬'], 5⟩ ['N', 'O', 'T'] :=
    .connective (s := .word "not" negationSymbol) (by decide +kernel) (by decide) (by decide)
  have hb : TypedAs ⟨.name, ['b'], 6⟩ ['b'] := .name rfl
  have htyped : Typed TypedAs (scan "(a)➔¬¬b".toList) "(a)=>!NOT b\n".toList := by
    have hend := Typed.token hb (.separator (c := '\n') rfl .nil) (by decide)
    have hnots := Typed.token hsign (.token hword (.separator (c := ' ') rfl hend) (by decide))
      (by decide)
    have hleft := Typed.token hopen (.token ha (.token hclose (.token himplies hnots (by decide))
      (by decide)) (by decide)) (by decide)
    rw [hscan]
    exact hleft
  have hnames : ∀ x ∈ Formula.names [f], StableName false x := by decide +kernel
  exact ⟨htokens, htyped, hnames, read_of_typed htokens htyped hnames
    (Limits.admits_iff.mpr (by decide +kernel))⟩

end Propositional.Inquiry
