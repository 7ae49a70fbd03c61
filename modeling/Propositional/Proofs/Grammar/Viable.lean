import Propositional.Proofs.Grammar.RoundTrip

/-!
# A syntax error is found as early as it can be

Tokens are viable if they can go on to a whole expression. The reader fills frames before it looks
at what the next token would lead to, and yet it never takes a token too many: whatever it has
taken, an operand and a closing parenthesis for each that is open would make an expression of it.

* `Reading.completion`: the text that completes a reading. `Reading.exists_verdict_completion` reads
  it, with one closing parenthesis after the other by `Reading.exists_verdict_of_closing`.
* `viable_iff_shiftAll`: the viable tokens are those that the reader takes.
* `Reading.shiftAll_eq_error_iff`: the error is the first token that is not taken.
* `Formula.syntax_error_is_earliest`: where the parser reports a syntax error.
-/

namespace Propositional

open Propositional.Frame Propositional.Reading Lalr

/-- The tokens begin an expression. -/
def Viable (ts : List Token) : Prop := ∃ us f, Derives .implication (ts ++ us) f

variable {ts us : List Token} {t : Token} {f : Formula} {fs : List Frame} {r : Reading}

/-! ## The completion of a reading -/

namespace Token

theorem scanFrom_replicate_closeParen (n k : Nat) :
    (∀ t ∈ scanFrom n (List.replicate k ')'), t.kind = .closeParen) ∧
      (scanFrom n (List.replicate k ')')).length = k := by
  induction k generalizing n with
  | zero => simp [scanFrom]
  | succ k ih =>
    obtain ⟨hall, hlen⟩ := ih (n + 1)
    have hclose : symbolKind ')' = .closeParen := by decide
    rw [List.replicate_succ, scanFrom_symbol isSymbol_closeParen.1 isSymbol_closeParen.2, hclose,
      List.length_cons, hlen]
    exact ⟨List.forall_mem_cons.mpr ⟨rfl, hall⟩, rfl⟩

end Token

namespace Reading

/-- A text that makes the reading a whole expression: an operand, where one is awaited, and all the
parentheses that are missing. -/
def completion (r : Reading) : List Char :=
  (if r.operand.isNone then ['A'] else []) ++ List.replicate (r.frames.countP isParen) ')'

/-- As many closing parentheses as are open complete an operand. -/
theorem exists_verdict_of_closing (hall : ∀ t ∈ us, t.kind = .closeParen)
    (hlen : us.length = fs.countP isParen) : ∃ g, verdict ⟨fs, some f⟩ us = .ok g := by
  induction us generalizing fs f with
  | nil =>
    rcases fillWhile_not_isParen_countP f fs with ⟨g, hg, -⟩ | ⟨g, rest, -, hcount⟩
    · exact ⟨g, finish_of_nil hg⟩
    · rw [hcount] at hlen
      cases hlen
  | cons u us ih =>
    have hu : u.kind = .closeParen := hall u List.mem_cons_self
    rcases fillWhile_not_isParen_countP f fs with ⟨g, -, hcount⟩ | ⟨g, rest, hg, hcount⟩
    · rw [hcount] at hlen
      cases hlen
    · rw [hcount, List.length_cons, Nat.add_right_cancel_iff] at hlen
      rw [verdict_cons_of_some (shift_closeParen hu hg)]
      exact ih (fun t ht => hall t (List.mem_cons_of_mem u ht)) hlen

/-- **Every reading can be completed.** -/
theorem exists_verdict_completion (r : Reading) :
    ∃ f, verdict r (Token.scan r.completion) = .ok f := by
  obtain ⟨fs, operand⟩ := r
  cases operand with
  | some f =>
    obtain ⟨hall, hlen⟩ := Token.scanFrom_replicate_closeParen 0 (fs.countP isParen)
    exact exists_verdict_of_closing hall hlen
  | none =>
    obtain ⟨hall, hlen⟩ := Token.scanFrom_replicate_closeParen 1 (fs.countP isParen)
    have hrest : (List.replicate (fs.countP isParen) ')').takeWhile Text.isLetter = [] := by
      cases fs.countP isParen <;> rfl
    have hscan : Token.scanFrom 0 (['A'] ++ List.replicate (fs.countP isParen) ')') =
        ⟨.name, ['A'], 0⟩ :: Token.scanFrom 1 (List.replicate (fs.countP isParen) ')') :=
      Token.scanFrom_word (by decide) (by simp; decide) hrest
    show ∃ f, verdict ⟨fs, none⟩ (Token.scanFrom 0 (['A'] ++ _)) = .ok f
    rw [hscan, verdict_cons_of_some (shift_name rfl)]
    exact exists_verdict_of_closing hall hlen

/-! ## The first token that is not taken -/

/-- The error is a token that cannot be shifted after all that comes before it. -/
theorem shiftAll_eq_error_iff {e : ParseError} :
    r.shiftAll ts = .error e ↔
      ∃ us t vs q, ts = us ++ t :: vs ∧ r.shiftAll us = .ok q ∧ q.shift t = none ∧
        e = .unexpectedToken t := by
  constructor
  · intro h
    induction ts generalizing r with
    | nil => cases h
    | cons u ts ih =>
      rw [shiftAll] at h
      split at h
      · rename_i r' hu
        obtain ⟨us, t, vs, q, rfl, hus, ht, rfl⟩ := ih h
        refine ⟨u :: us, t, vs, q, rfl, ?_, ht, rfl⟩
        rw [shiftAll, hu]
        exact hus
      · rename_i hu
        cases h
        exact ⟨[], u, ts, r, rfl, rfl, hu, rfl⟩
  · rintro ⟨us, t, vs, q, rfl, hus, ht, rfl⟩
    rw [shiftAll_append, hus]
    simp only [Except.bind, shiftAll, ht]

/-- What is missing at the end is not a token. -/
theorem eq_unexpectedEnd_of_finish {e : ParseError} (h : r.finish = .error e) :
    e = .unexpectedEnd := by
  unfold finish at h
  split at h
  · cases h
    rfl
  · split at h
    · cases h
    · cases h
      rfl

end Reading

/-! ## Viable tokens -/

/-- Tokens that the reader takes go on to an expression with the tokens of some text. -/
theorem exists_text_of_shiftAll (hr : Reading.start.shiftAll ts = .ok r) :
    ∃ cs f, Derives .implication (ts ++ Token.scan cs) f := by
  obtain ⟨f, hf⟩ := r.exists_verdict_completion
  rw [← verdict_append_of_ok hr, ← ofTokens_eq_verdict] at hf
  exact ⟨r.completion, f, derives_of_ofTokens hf⟩

/-- **The reader takes the viable tokens and no others.** -/
theorem viable_iff_shiftAll : Viable ts ↔ ∃ r, Reading.start.shiftAll ts = .ok r := by
  constructor
  · rintro ⟨us, f, hd⟩
    obtain ⟨r, hr, -⟩ := Formula.ofTokens_eq_ok_iff_shiftAll.mp (ofTokens_of_derives hd)
    rw [shiftAll_append] at hr
    cases hts : Reading.start.shiftAll ts with
    | ok q => exact ⟨q, rfl⟩
    | error e =>
      rw [hts] at hr
      cases hr
  · rintro ⟨r, hr⟩
    obtain ⟨cs, f, hd⟩ := exists_text_of_shiftAll hr
    exact ⟨Token.scan cs, f, hd⟩

theorem Viable.exists_text (h : Viable ts) :
    ∃ cs f, Derives .implication (ts ++ Token.scan cs) f := by
  obtain ⟨r, hr⟩ := viable_iff_shiftAll.mp h
  exact exists_text_of_shiftAll hr

/-- One token more is viable exactly if the reader can shift it. -/
theorem viable_snoc_iff (hr : Reading.start.shiftAll ts = .ok r) :
    Viable (ts ++ [t]) ↔ ∃ q, r.shift t = some q := by
  rw [viable_iff_shiftAll, shiftAll_append, hr]
  simp only [Except.bind, shiftAll]
  cases r.shift t with
  | none => simp
  | some q => simp

theorem shiftAll_eq_error_iff_viable :
    Reading.start.shiftAll ts = .error (.unexpectedToken t) ↔
      ∃ us vs, ts = us ++ t :: vs ∧ Viable us ∧ ¬ Viable (us ++ [t]) := by
  rw [shiftAll_eq_error_iff]
  constructor
  · rintro ⟨us, t, vs, r, rfl, hr, ht, ⟨⟩⟩
    refine ⟨us, vs, rfl, viable_iff_shiftAll.mpr ⟨r, hr⟩, ?_⟩
    rw [viable_snoc_iff hr, ht]
    simp
  · rintro ⟨us, vs, rfl, hus, ht⟩
    obtain ⟨r, hr⟩ := viable_iff_shiftAll.mp hus
    rw [viable_snoc_iff hr, ← Option.isSome_iff_exists, Option.not_isSome_iff_eq_none] at ht
    exact ⟨us, t, vs, r, rfl, hr, ht, rfl⟩

theorem ofTokens_eq_error_unexpectedToken_iff :
    Formula.ofTokens ts = .error (.unexpectedToken t) ↔
      ∃ us vs, ts = us ++ t :: vs ∧ Viable us ∧ ¬ Viable (us ++ [t]) := by
  rw [← shiftAll_eq_error_iff_viable, Formula.ofTokens]
  cases Reading.start.shiftAll ts with
  | error e => simp
  | ok r =>
    constructor
    · intro h
      cases eq_unexpectedEnd_of_finish h
    · intro h
      cases h

theorem ofTokens_eq_error_unexpectedEnd_iff :
    Formula.ofTokens ts = .error .unexpectedEnd ↔
      Viable ts ∧ ∀ f, ¬ Derives .implication ts f := by
  have hiff : (∀ f, ¬ Derives .implication ts f) ↔ ∀ f, Formula.ofTokens ts ≠ .ok f :=
    forall_congr' fun f => not_congr ofTokens_eq_ok_iff.symm
  rw [hiff, viable_iff_shiftAll, Formula.ofTokens]
  cases hts : Reading.start.shiftAll ts with
  | error e =>
    obtain ⟨us, t, vs, r, -, -, -, rfl⟩ := shiftAll_eq_error_iff.mp hts
    simp
  | ok r =>
    cases hfin : r.finish with
    | ok f => simp [hfin]
    | error e =>
      obtain rfl := eq_unexpectedEnd_of_finish hfin
      simp [hfin]

/-! ## The syntax errors of the parser -/

/-- **A syntax error is found as early as it can be.** A token is the syntax error of a text exactly
if the tokens before it begin an expression, but do not with this token added. The end of the text
is the error exactly if the tokens are no expression but begin one. Tokens that begin an expression
do so within some text, and the syntax errors are those of the LALR(1) automaton. -/
theorem Formula.syntax_error_is_earliest (text : List Char) (maxDepth : Int) :
    (∀ t, Formula.parse text maxDepth = .error (.unexpectedToken t) ↔
        ∃ us vs, Token.scan text = us ++ t :: vs ∧ Viable us ∧ ¬ Viable (us ++ [t])) ∧
      (Formula.parse text maxDepth = .error .unexpectedEnd ↔
        Viable (Token.scan text) ∧ ∀ f, ¬ Derives .implication (Token.scan text) f) ∧
      (∀ ts, Viable ts → ∃ cs f, Derives .implication (ts ++ Token.scan cs) f) ∧
      (∀ o, Formula.parse text maxDepth = .error (syntaxError o) ↔
        flat.Runs [] (Token.scan text) (.error o)) := by
  refine ⟨fun t => ?_, ?_, fun ts h => h.exists_text, fun o => parse_eq_error_iff_runs⟩
  · rw [← ofTokens_eq_error_unexpectedToken_iff]
    exact parse_eq_syntaxError_iff (o := some t)
  · rw [← ofTokens_eq_error_unexpectedEnd_iff]
    exact parse_eq_syntaxError_iff (o := none)

/-- The tokens of `(A⋀` begin an expression, but `)` cannot come next. -/
theorem Formula.syntax_error_after_connective :
    let us : List Token := [⟨.openParen, ['('], 0⟩, ⟨.name, ['A'], 1⟩, ⟨.binary .and, ['⋀'], 2⟩]
    let t : Token := ⟨.closeParen, [')'], 3⟩
    Viable us ∧ ¬ Viable (us ++ [t]) ∧
      Formula.parse "(A⋀)".toList 256 = .error (.unexpectedToken t) ∧
        ∃ cs f, Derives .implication (us ++ Token.scan cs) f := by
  intro us t
  have hscan : Token.scan "(A⋀)".toList = us ++ t :: [] := by decide +kernel
  have hviable : Viable us := viable_iff_shiftAll.mpr ⟨_, rfl⟩
  have hrefused : ¬ Viable (us ++ [t]) := by
    rw [viable_snoc_iff (r := ⟨[.leftOf .and (.var "A"), .paren], none⟩) rfl]
    rintro ⟨q, ⟨⟩⟩
  obtain ⟨htoken, -, htext, -⟩ := Formula.syntax_error_is_earliest "(A⋀)".toList 256
  exact ⟨hviable, hrefused, (htoken t).mpr ⟨us, [], hscan, hviable, hrefused⟩, htext us hviable⟩

end Propositional
