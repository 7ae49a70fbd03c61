import Propositional.Proofs.Grammar.Reading
import Propositional.Proofs.Token.Scan
import Propositional.Violation.Check

/-!
# The check and the reader agree

The check looks at the tokens with two states and a number of open parentheses; the reader builds a
formula. Both go through a text in step, so that they refuse the same texts and blame the same
place.

* `Simulates`: the scan expects an operand exactly if the reading has none, and counts its open
  parentheses. `Simulates.step` shows that both take a token or both refuse it, `Simulates.run` that
  they refuse the same token of a list, and `Simulates.atEnd` that both or neither are complete.
* `SamePlace`: a violation and an error that blame one token, or the end of the text.
* `ofStructure_agrees`: the two verdicts on a list of tokens; by `ofStructure_eq_none_iff` the scan
  accepts what the grammar derives.
* `depth_le_of_derives`: an expression is never deeper than it has tokens.
* `check_agrees_with_parse`: the two verdicts on a text.
-/

namespace Propositional

open Propositional.Frame Propositional.Reading Propositional.Violation.Scan

variable {r : Reading} {s s' : Violation.Scan} {t : Token} {ts : List Token} {f : Formula}
  {fs : List Frame} {n : Nat}

/-! ## The simulation -/

/-- The scan knows of the reading what decides which token may come next. -/
structure Simulates (r : Reading) (s : Violation.Scan) : Prop where
  expectsOperand : s.expectsOperand = r.operand.isNone
  opened : s.opened = r.frames.countP isParen

/-- **A violation and an error that blame the same place** of a text of length `n`. -/
inductive SamePlace (n : Nat) : Violation → ParseError → Prop
  | misplaced (t : Token) : SamePlace n (.misplaced t.text t.start) (.unexpectedToken t)
  | unopened (t : Token) (ht : t.kind = .closeParen) :
      SamePlace n (.missing '(' t.start) (.unexpectedToken t)
  | unclosed : SamePlace n (.missing ')' n) .unexpectedEnd
  | unexpectedEnd : SamePlace n (.unexpectedEnd n) .unexpectedEnd

theorem simulates_start : Simulates .start .start := ⟨rfl, rfl⟩

/-- **Both take a token or both refuse it.** -/
theorem Simulates.step (h : Simulates r s) (t : Token) (n : Nat) :
    (∃ s' r', s.step t = .ok s' ∧ r.shift t = some r' ∧ Simulates r' s') ∨
      ∃ v, s.step t = .error v ∧ r.shift t = none ∧ SamePlace n v (.unexpectedToken t) := by
  obtain ⟨fs, operand⟩ := r
  obtain ⟨expects, opened⟩ := s
  obtain ⟨rfl, rfl⟩ : expects = operand.isNone ∧ opened = fs.countP isParen := ⟨h.1, h.2⟩
  cases operand with
  | none =>
    cases hk : t.kind with
    | name => exact Or.inl ⟨_, _, step_operand (by rw [hk]; rfl), shift_name hk, rfl, rfl⟩
    | truth b => exact Or.inl ⟨_, _, step_operand (by rw [hk]; rfl), shift_truth hk, rfl, rfl⟩
    | negation => exact Or.inl ⟨_, _, step_negation hk, shift_negation hk, rfl, rfl⟩
    | openParen =>
      refine Or.inl ⟨_, _, step_openParen hk, shift_openParen hk, rfl, ?_⟩
      exact (List.countP_cons_of_pos rfl).symm
    | binary op | closeParen | illegal =>
      exact Or.inr ⟨_, step_true_eq_error (by simp [hk]), shift_none_eq_none (by simp [hk]),
        .misplaced t⟩
  | some f =>
    cases hk : t.kind with
    | binary op =>
      refine Or.inl ⟨_, _, step_binary hk, shift_binary hk rfl, rfl, ?_⟩
      -- the connective closes frames, but no parenthesis
      show _ = List.countP isParen (.leftOf op _ :: (fillWhile (bindsBefore op) f fs).2)
      rw [List.countP_cons_of_neg (by exact Bool.false_ne_true),
        countP_fillWhile fun _ hb => isParen_of_bindsBefore hb]
    | closeParen =>
      rcases fillWhile_not_isParen_countP f fs with ⟨g, hg, hcount⟩ | ⟨g, rest, hg, hcount⟩
      · rw [hcount]
        exact Or.inr ⟨_, step_closeParen_zero hk, shift_closeParen_eq_none hk hg, .unopened t hk⟩
      · rw [hcount]
        exact Or.inl ⟨_, _, step_closeParen hk, shift_closeParen hk hg, rfl, rfl⟩
    | name | truth b | negation | openParen | illegal =>
      exact Or.inr ⟨_, step_false_eq_error (by simp [hk, Token.Kind.isOperand]),
        shift_some_eq_none (by simp [hk, Token.Kind.isOperand]), .misplaced t⟩

/-- **Both take all tokens or both refuse the same one.** -/
theorem Simulates.run (h : Simulates r s) (ts : List Token) (n : Nat) :
    (∃ s' r', s.run ts = .ok s' ∧ r.shiftAll ts = .ok r' ∧ Simulates r' s') ∨
      ∃ v t, s.run ts = .error v ∧ r.shiftAll ts = .error (.unexpectedToken t) ∧
        SamePlace n v (.unexpectedToken t) := by
  induction ts generalizing r s with
  | nil => exact Or.inl ⟨s, r, rfl, rfl, h⟩
  | cons t ts ih =>
    unfold Violation.Scan.run Reading.shiftAll
    rcases h.step t n with ⟨s', r', hs, hr, h'⟩ | ⟨v, hs, hr, hplace⟩
    · rw [hs, hr]
      exact ih h'
    · rw [hs, hr]
      exact Or.inr ⟨v, t, rfl, rfl, hplace⟩

/-- **Both are complete or both miss something at the end.** -/
theorem Simulates.atEnd (h : Simulates r s) (n : Nat) :
    (s.atEnd n = none ∧ ∃ f, r.finish = .ok f) ∨
      ∃ v, s.atEnd n = some v ∧ r.finish = .error .unexpectedEnd ∧ SamePlace n v .unexpectedEnd := by
  obtain ⟨fs, operand⟩ := r
  obtain ⟨expects, opened⟩ := s
  obtain ⟨rfl, rfl⟩ : expects = operand.isNone ∧ opened = fs.countP isParen := ⟨h.1, h.2⟩
  unfold Violation.Scan.atEnd
  cases operand with
  | none =>
    by_cases hopen : 0 < fs.countP isParen
    · rw [if_pos hopen]
      exact Or.inr ⟨_, rfl, rfl, .unclosed⟩
    · rw [if_neg hopen]
      exact Or.inr ⟨_, rfl, rfl, .unexpectedEnd⟩
  | some f =>
    rcases fillWhile_not_isParen_countP f fs with ⟨g, hg, hcount⟩ | ⟨g, rest, hg, hcount⟩
    · rw [hcount]
      exact Or.inl ⟨rfl, g, finish_of_nil hg⟩
    · rw [hcount]
      exact Or.inr ⟨_, rfl, finish_of_paren hg, .unclosed⟩

/-- **The two verdicts on the tokens of a text of length `n`.** -/
theorem ofStructure_agrees (ts : List Token) (n : Nat) :
    (Violation.ofStructure ts n = none ∧ ∃ f, Formula.ofTokens ts = .ok f) ∨
      ∃ v e, Violation.ofStructure ts n = some v ∧ Formula.ofTokens ts = .error e ∧
        SamePlace n v e := by
  unfold Violation.ofStructure Formula.ofTokens
  rcases simulates_start.run ts n with ⟨s, r, hs, hr, h⟩ | ⟨v, t, hs, hr, hplace⟩
  · rw [hs, hr]
    rcases h.atEnd n with hdone | ⟨v, hv, hfin, hplace⟩
    · exact Or.inl hdone
    · exact Or.inr ⟨v, _, hv, hfin, hplace⟩
  · rw [hs, hr]
    exact Or.inr ⟨v, _, rfl, rfl, hplace⟩

/-! ## Sizes -/

theorem length_distinct_le {α : Type} [DecidableEq α] (as : List α) :
    (distinct as).length ≤ as.length := by
  induction as with
  | nil => exact Nat.le_refl 0
  | cons a as ih =>
    have hfilter := List.length_filter_le (· ≠ a) (distinct as)
    rw [distinct, List.length_cons, List.length_cons]
    omega

namespace Violation

theorem length_names_le (ts : List Token) : (names ts).length ≤ ts.length := by
  refine Nat.le_trans (length_distinct_le _) ?_
  rw [List.length_map]
  exact List.length_filter_le _ _

/-- No token is an operand and an operator. -/
theorem operandCount_add_operatorCount_le (ts : List Token) :
    operandCount ts + operatorCount ts ≤ ts.length := by
  unfold operandCount operatorCount
  induction ts with
  | nil => exact Nat.le_refl 0
  | cons t ts ih =>
    rw [List.countP_cons, List.countP_cons, List.length_cons]
    cases t.kind <;> simp only [Token.Kind.isOperand, Token.Kind.isOperator, Bool.false_eq_true,
      if_false, if_true] at ih ⊢ <;> omega

theorem ofIllegal_eq_none_iff : ofIllegal ts = none ↔ ∀ t ∈ ts, t.kind ≠ .illegal := by
  simp [ofIllegal]

theorem exceeding_eq_none_iff {limit : Int} : exceeding n limit = none ↔ (n : Int) ≤ limit := by
  unfold exceeding
  split
  · rename_i h
    simp [Int.not_le.mpr h]
  · rename_i h
    simp [Int.not_lt.mp h]

theorem ofSize_eq_none_iff {limits : Limits} :
    ofSize limits ts = none ↔
      ((names ts).length : Int) ≤ limits.names ∧ (operandCount ts : Int) ≤ limits.operands ∧
        (operatorCount ts : Int) ≤ limits.operators := by
  simp only [ofSize, Option.orElse_eq_orElse, Option.orElse_eq_or, Option.or_eq_none_iff,
    exceeding_eq_none_iff]

theorem tooBig_of_exceeding {count : Nat} {limit : Int} {v : Violation}
    (h : exceeding count limit = some v) : ∃ count limit, v = .tooBig count limit := by
  unfold exceeding at h
  obtain ⟨-, ⟨⟩⟩ := Option.ite_none_right_eq_some.mp h
  exact ⟨_, _, rfl⟩

theorem tooBig_of_ofSize {limits : Limits} {v : Violation} (h : ofSize limits ts = some v) :
    ∃ count limit, v = .tooBig count limit := by
  simp only [ofSize, Option.orElse_eq_orElse, Option.orElse_eq_or, Option.or_eq_some_iff] at h
  rcases h with h | ⟨-, h | ⟨-, h⟩⟩
  · exact tooBig_of_exceeding h
  · exact tooBig_of_exceeding h
  · exact tooBig_of_exceeding h

/-! ## The verdicts on a text -/

theorem check_of_legal {limits : Limits} {text : List Char} (hblank : text.all Text.isBlank = false)
    (hlegal : ∀ t ∈ Token.scan text, t.kind ≠ .illegal) :
    check limits text =
      (ofStructure (Token.scan text) text.length).or (ofSize limits (Token.scan text)) := by
  simp only [check, hblank, Bool.false_eq_true, if_false, ofIllegal_eq_none_iff.mpr hlegal,
    Option.orElse_eq_orElse, Option.orElse_eq_or, Option.none_or]

/-- Where the check finds nothing the text is not blank, has only legal tokens in their places, and
keeps to the limits. -/
theorem check_eq_none_iff {limits : Limits} {text : List Char} :
    check limits text = none ↔
      text.all Text.isBlank = false ∧ (∀ t ∈ Token.scan text, t.kind ≠ .illegal) ∧
        ofStructure (Token.scan text) text.length = none ∧ ofSize limits (Token.scan text) = none := by
  cases hblank : text.all Text.isBlank with
  | true => simp [check, hblank]
  | false =>
    simp only [check, hblank, Bool.false_eq_true, if_false, Option.orElse_eq_orElse,
      Option.orElse_eq_or, Option.or_eq_none_iff, ofIllegal_eq_none_iff, true_and]

end Violation

theorem depth_le_of_derives {L : Stratum} (h : Derives L ts f) : f.depth ≤ ts.length := by
  have hdepth := f.depth_le_operatorCount
  have hleaf := f.one_le_leafCount
  have hcounts := Violation.operandCount_add_operatorCount_le ts
  rw [Violation.operandCount, Violation.operatorCount, ← h.leafCount_eq, ← h.operatorCount_eq]
    at hcounts
  omega

/-- The scan over the tokens accepts what the grammar derives. -/
theorem ofStructure_eq_none_iff :
    Violation.ofStructure ts n = none ↔ ∃ f, Derives .implication ts f := by
  constructor
  · intro hnone
    rcases ofStructure_agrees ts n with ⟨-, f, hf⟩ | ⟨v, e, hv, -⟩
    · exact ⟨f, ofTokens_eq_ok_iff.mp hf⟩
    · rw [hv] at hnone
      cases hnone
  · rintro ⟨f, hd⟩
    rcases ofStructure_agrees ts n with ⟨hnone, -⟩ | ⟨v, e, -, he, -⟩
    · exact hnone
    · rw [ofTokens_of_derives hd] at he
      cases he

/-- An expression has a token that is no blank. -/
theorem not_blank_of_derives {L : Stratum} {text : List Char} (h : Derives L (Token.scan text) f) :
    text.all Text.isBlank = false := by
  rw [← Bool.not_eq_true]
  intro hblank
  cases hscan : Token.scan text with
  | nil =>
    rw [hscan] at h
    cases ofTokens_of_derives (h.weaken L.one_le_strength)
  | cons t ts =>
    have ht : t ∈ Token.scan text := hscan ▸ List.mem_cons_self
    exact h.legal t ht (Token.illegal_of_mem_scanFrom_blank hblank ht)

theorem check_eq_none_iff_parse {limits : Limits} {maxDepth : Int} {text : List Char}
    (hnames : (text.length : Int) ≤ limits.names) (hoperands : (text.length : Int) ≤ limits.operands)
    (hoperators : (text.length : Int) ≤ limits.operators)
    (hdepth : (text.length : Int) ≤ maxDepth) :
    Violation.check limits text = none ↔ ∃ f, Formula.parse text maxDepth = .ok f := by
  have hlen : (Token.scan text).length ≤ text.length := Token.length_scanFrom_le 0 text
  rw [Violation.check_eq_none_iff]
  constructor
  · rintro ⟨-, -, hstruct, -⟩
    obtain ⟨f, hd⟩ := ofStructure_eq_none_iff.mp hstruct
    have hle := depth_le_of_derives hd
    exact ⟨f, Formula.parse_eq_ok_iff.mpr ⟨ofTokens_of_derives hd, by omega⟩⟩
  · rintro ⟨f, hf⟩
    have hd := ofTokens_eq_ok_iff.mp (Formula.parse_eq_ok_iff.mp hf).1
    have hnamesLen := Violation.length_names_le (Token.scan text)
    have hcounts := Violation.operandCount_add_operatorCount_le (Token.scan text)
    exact ⟨not_blank_of_derives hd, hd.legal, ofStructure_eq_none_iff.mpr ⟨f, hd⟩,
      Violation.ofSize_eq_none_iff.mpr ⟨by omega, by omega, by omega⟩⟩

/-- On a text with legal tokens that is not blank, the verdict on its tokens decides: both accept
its structure, or both refuse it at the same place. -/
theorem verdicts_agree (limits : Limits) (maxDepth : Int) {text : List Char}
    (hblank : text.all Text.isBlank = false)
    (hlegal : ∀ t ∈ Token.scan text, t.kind ≠ .illegal) :
    ((∀ v, Violation.check limits text = some v → ∃ count limit, v = .tooBig count limit) ∧
        ∀ e, Formula.parse text maxDepth = .error e → ∃ depth limit, e = .tooDeep depth limit) ∨
      ∃ v e, Violation.check limits text = some v ∧ Formula.parse text maxDepth = .error e ∧
        SamePlace text.length v e := by
  rw [Violation.check_of_legal hblank hlegal]
  unfold Formula.parse
  rcases ofStructure_agrees (Token.scan text) text.length with ⟨hnone, f, hf⟩ | ⟨v, e, hv, he, h⟩
  · refine Or.inl ⟨fun v hv => ?_, fun e he => ?_⟩
    · rw [hnone, Option.none_or] at hv
      exact Violation.tooBig_of_ofSize hv
    · rw [hf] at he
      simp only at he
      split at he
      · cases he
        exact ⟨_, _, rfl⟩
      · cases he
  · rw [hv, he]
    exact Or.inr ⟨v, e, rfl, rfl, h⟩

/-- **The check and the parser agree on every text.** With limits that the length of the text cannot
pass, the check finds nothing exactly if the text can be parsed. The syntax errors are those of the
LALR(1) automaton. If a text is not blank and has no illegal character, then whatever the limits are

* a violation at a token is found exactly if that token is the syntax error: the token itself, or
  the parenthesis missing for it if it closes one;
* a violation at the end of the text is found exactly if the syntax error is the end. -/
theorem check_agrees_with_parse (limits : Limits) (maxDepth : Int) (text : List Char) :
    ((text.length : Int) ≤ limits.names → (text.length : Int) ≤ limits.operands →
        (text.length : Int) ≤ limits.operators → (text.length : Int) ≤ maxDepth →
        (Violation.check limits text = none ↔ ∃ f, Formula.parse text maxDepth = .ok f)) ∧
      (∀ o, Formula.parse text maxDepth = .error (Lalr.syntaxError o) ↔
        Lalr.flat.Runs [] (Token.scan text) (.error o)) ∧
      (text.all Text.isBlank = false → (∀ t ∈ Token.scan text, t.kind ≠ .illegal) →
        (∀ p, ((∃ cs, Violation.check limits text = some (.misplaced cs p)) ∨
              Violation.check limits text = some (.missing '(' p)) ↔
            ∃ t, Formula.parse text maxDepth = .error (.unexpectedToken t) ∧ t.start = p) ∧
          (∀ t, Formula.parse text maxDepth = .error (.unexpectedToken t) →
            Violation.check limits text = some (.misplaced t.text t.start) ∨
              t.kind = .closeParen ∧ Violation.check limits text = some (.missing '(' t.start)) ∧
          (∀ p, (Violation.check limits text = some (.missing ')' p) ∨
              Violation.check limits text = some (.unexpectedEnd p)) ↔
            Formula.parse text maxDepth = .error .unexpectedEnd ∧ p = text.length)) := by
  refine ⟨check_eq_none_iff_parse, fun o => Lalr.parse_eq_error_iff_runs, fun hblank hlegal => ?_⟩
  rcases verdicts_agree limits maxDepth hblank hlegal with ⟨hcheck, hparse⟩ | ⟨v, e, hv, he, h⟩
  · have hno : ∀ v p, v.position? = some p → Violation.check limits text ≠ some v := by
      rintro v p hp hv
      obtain ⟨count, limit, rfl⟩ := hcheck v hv
      cases hp
    have hnotok : ∀ t, Formula.parse text maxDepth ≠ .error (.unexpectedToken t) := by
      intro t ht
      obtain ⟨depth, limit, h⟩ := hparse _ ht
      cases h
    refine ⟨fun p => ⟨?_, ?_⟩, fun t ht => absurd ht (hnotok t), fun p => ⟨?_, ?_⟩⟩
    · rintro (⟨cs, h⟩ | h)
      · exact absurd h (hno _ p rfl)
      · exact absurd h (hno _ p rfl)
    · rintro ⟨t, ht, -⟩
      exact absurd ht (hnotok t)
    · rintro (h | h)
      · exact absurd h (hno _ p rfl)
      · exact absurd h (hno _ p rfl)
    · rintro ⟨hend, -⟩
      obtain ⟨depth, limit, h⟩ := hparse _ hend
      cases h
  · rw [hv, he]
    cases h with
    | misplaced t => simp
    | unopened t ht => simp [ht]
    | unclosed => simp [eq_comm]
    | unexpectedEnd => simp [eq_comm]

/-- `(A)`, and `(A` with its parenthesis missing at the end. -/
theorem check_agrees_on_group :
    (Violation.check {} "(A)".toList = none ∧ ∃ f, Formula.parse "(A)".toList 256 = .ok f) ∧
      Violation.check {} "(A".toList = some (.missing ')' 2) ∧
        Formula.parse "(A".toList 256 = .error .unexpectedEnd := by
  have hnone : Violation.check {} "(A)".toList = none := by decide +kernel
  have hmissing : Violation.check {} "(A".toList = some (.missing ')' 2) := by decide +kernel
  have haccept := (check_agrees_with_parse {} 256 "(A)".toList).1 (by decide +kernel)
    (by decide +kernel) (by decide +kernel) (by decide +kernel)
  have hplace := (check_agrees_with_parse {} 256 "(A".toList).2.2 (by decide +kernel)
    (by decide +kernel)
  exact ⟨⟨hnone, haccept.mp hnone⟩, hmissing, ((hplace.2.2 2).mp (Or.inl hmissing)).1⟩

end Propositional
