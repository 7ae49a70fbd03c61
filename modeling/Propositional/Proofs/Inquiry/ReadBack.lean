import Propositional.Proofs.Inquiry.Stages
import Propositional.Proofs.Simplification.Fixpoint
import Propositional.Proofs.Spelling.Written

/-!
# Answers can be asked again

The answer to an inquiry is text, and as a text it can be the subject of the next inquiry. It is
read as the formula that it was written for: its names are names of the text that was typed, and
those survive another reading. A simplification adds neither names nor operands, so the only limit
that an answer can exceed is the one on operators.

* `read_render_eq_ok`, `read_render_eq_refused`: reading a written formula with stable names.
* `Settings.simplified_again`: what was simplified to the end stays as it is.
* `answer_is_read_back`: an answer as the subject of the next inquiry.
-/

namespace Propositional

variable {s : Settings} {text : String} {f : Formula}

/-- **What was simplified to the end stays as it is.** -/
theorem Settings.simplified_again (h : (s.simplified f).stopped = false) :
    s.simplified (s.simplified f).result = .unchanged (s.simplified f).result := by
  unfold simplified at h ⊢
  split
  · rename_i hs
    rw [if_pos hs] at h
    have hnormal := Simplification.isNormal_of_run h
    exact Simplification.run_of_isNormal hnormal (Simplification.pos_of_not_stopped h)
  · rfl

namespace Inquiry

theorem canonical_render (hx : ∀ x ∈ Formula.names [f], StableName s.caseSensitive x) :
    Canonical.ofText s.caseSensitive f.render.toList =
      .ok ⟨f.charsWith (Canonical.constantName s.caseSensitive),
        List.range ((f.charsWith (Canonical.constantName s.caseSensitive)).length + 1)⟩ := by
  rw [Formula.render, String.toList_ofList]
  exact ofText_chars f hx

/-- **A written formula that keeps to the limits is read as itself.** -/
theorem read_render_eq_ok (hx : ∀ x ∈ Formula.names [f], StableName s.caseSensitive x)
    (hadmits : s.limits.Admits f) : (read s f.render).outcome = .ok (.ok f) := by
  have hd := derives_scan_canonical f hx
  have hdepth := f.depth_le_operatorCount
  have hoperators := hadmits.operators
  have hlimit := s.operators_lt_maxDepth
  exact read_eq_ok (canonical_render hx) (check_eq_none_iff_admits.mpr ⟨f, hd, hadmits⟩)
    (Formula.parse_eq_ok_iff.mpr ⟨ofTokens_of_derives hd, by omega⟩)

/-- **A written formula with too many operators is refused for that.** -/
theorem read_render_eq_refused (hx : ∀ x ∈ Formula.names [f], StableName s.caseSensitive x)
    (hnames : ((Formula.names [f]).length : Int) ≤ s.limits.names)
    (hoperands : (f.leafCount : Int) ≤ s.limits.operands)
    (hoperators : s.limits.operators < f.operatorCount) :
    (read s f.render).outcome = .ok (.error ⟨.tooBigExpression,
      (Violation.tooBig f.operatorCount s.limits.operators).message s.language⟩) := by
  have hcheck : Violation.check s.limits (f.charsWith (Canonical.constantName s.caseSensitive)) =
      some (.tooBig f.operatorCount s.limits.operators) := by
    rw [check_of_derives (derives_scan_canonical f hx), Violation.exceeding_eq_none_iff.mpr hnames,
      Violation.exceeding_eq_none_iff.mpr hoperands, Violation.exceeding_of_lt hoperators,
      Option.none_or, Option.none_or]
  exact read_eq_refused (canonical_render hx) hcheck rfl

/-- The names of an answer are stable. -/
theorem stableName_of_read (h : (read s text).outcome = .ok (.ok f)) :
    ∀ x ∈ Formula.names [(s.simplified f).result], StableName s.caseSensitive x := by
  obtain ⟨c, hc, -, hparse⟩ := read_eq_ok_iff.mp h
  exact fun x hx => stableName_of_parse hc hparse x (s.mem_names_of_simplified f hx)

/-- **An answer is read back as the formula that it was written for.** Let `a` be the answer to an
inquiry about any text, with any settings. Then

* the canonical text of the answer is the answer, in its own places, apart from the constants, which
  are put in lower case if case does not matter;
* its tokens are legal and in their places, and it is parsed, given enough depth, as the result of
  the simplification;
* that result has no more operands and no more distinct names than the formula that was typed.

So a further inquiry about the answer, with the same settings, is refused if the result has more
operators than they allow, for that reason, and is answered otherwise; and if the first
simplification was not stopped, the second answer is the first one and takes no steps. -/
theorem answer_is_read_back {a : Simplified} (h : (simplify s text).outcome = .ok (.ok a)) :
    let again := a.result.charsWith (Canonical.constantName s.caseSensitive)
    (a.after.toList = a.result.charsWith Formula.constantName ∧
        (s.caseSensitive = true → a.after.toList = again) ∧
        Canonical.ofText s.caseSensitive a.after.toList =
          .ok ⟨again, List.range (again.length + 1)⟩) ∧
      (again.all Text.isBlank = false ∧ Violation.ofIllegal (Token.scan again) = none ∧
        Violation.ofStructure (Token.scan again) again.length = none ∧
        ∀ maxDepth : Int, (a.result.depth : Int) ≤ maxDepth →
          Formula.parse again maxDepth = .ok a.result) ∧
      (∃ f, (read s text).outcome = .ok (.ok f) ∧ a.result.leafCount ≤ f.leafCount ∧
        (Formula.names [a.result]).length ≤ (Formula.names [f]).length) ∧
      (s.limits.operators < a.result.operatorCount →
        (simplify s a.after).outcome = .ok (.error ⟨.tooBigExpression,
          (Violation.tooBig a.result.operatorCount s.limits.operators).message s.language⟩)) ∧
      ((a.result.operatorCount : Int) ≤ s.limits.operators →
        ∃ b, (simplify s a.after).outcome = .ok (.ok b) ∧
          (a.simplification.stopped = false → b.after = a.after ∧ b.steps = [])) := by
  intro again
  rw [outcome_simplify] at h
  obtain ⟨f, hread, rfl⟩ := map_map_eq_ok.mp h
  have hx := stableName_of_read hread
  have hd := derives_scan_canonical _ hx
  have hadmits := admits_of_read hread
  have hoperandsLimit := hadmits.operands
  have hnamesLimit := hadmits.names
  have hleaves := s.leafCount_simplified_le f
  have hnames := s.length_names_simplified_le f
  have hafter : (s.simplified f).result.render.toList =
      (s.simplified f).result.charsWith Formula.constantName := by
    rw [Formula.render, String.toList_ofList, Formula.charsWith_constantName]
  refine ⟨⟨hafter, fun hs => ?_, canonical_render hx⟩, ⟨not_blank_of_derives hd, ?_, ?_, ?_⟩,
    ⟨f, hread, hleaves, hnames⟩, fun hoperators => ?_, fun hoperators => ?_⟩
  · simp only [again, hs]
    exact hafter
  · exact Violation.ofIllegal_eq_none_iff.mpr hd.legal
  · exact ofStructure_eq_none_iff.mpr ⟨_, hd⟩
  · exact fun maxDepth hdepth => Formula.parse_eq_ok_iff.mpr ⟨ofTokens_of_derives hd, hdepth⟩
  · have hrefused := read_render_eq_refused hx (by omega) (by omega) hoperators
    rw [outcome_simplify, Simplified.after, Simplified.result, hrefused]
    rfl
  · have hok := read_render_eq_ok hx ⟨by omega, by omega, hoperators⟩
    refine ⟨_, outcome_simplify_of_read hok, fun hstopped => ?_⟩
    simp only [Simplified.after, Simplified.result, Simplified.steps,
      Settings.simplified_again hstopped]
    exact ⟨rfl, rfl⟩

/-- Without simplification the answer to `Ab -> TRUE` is `ab➔True`. It is read back as `ab➔true`,
and its answer is itself. The answer to `NOT not A & true` is `a` after two steps, and asked again
it takes none. With one operator allowed, `A -> B` is answered by `¬a⋁b`, which has two of them and
is refused in its turn. -/
theorem answer_is_read_back_constant :
    (∃ a, (simplify { simplify := false } "Ab -> TRUE").outcome = .ok (.ok a) ∧
      a.after = "ab➔True" ∧
      Canonical.ofText false a.after.toList = .ok ⟨"ab➔true".toList, List.range 8⟩ ∧
      ∃ b, (simplify { simplify := false } a.after).outcome = .ok (.ok b) ∧
        b.after = a.after ∧ b.steps = []) ∧
      (∃ a, (simplify {} "NOT not A & true").outcome = .ok (.ok a) ∧
        a.steps.length = 2 ∧ a.after = "a" ∧
        ∃ b, (simplify {} a.after).outcome = .ok (.ok b) ∧ b.after = a.after ∧ b.steps = []) ∧
      ∃ a, (simplify { limits := { operators := 1 } } "A -> B").outcome = .ok (.ok a) ∧
        a.after = "¬a⋁b" ∧
        (simplify { limits := { operators := 1 } } a.after).outcome = .ok (.error
          ⟨.tooBigExpression, "The expression is too big: 2 exceeds the limit of 1"⟩) := by
  refine ⟨?_, ?_, ?_⟩
  · have hread : (read { simplify := false } "Ab -> TRUE").outcome =
        .ok (.ok (.binary .implies (.var "ab") (.const true))) :=
      read_eq_ok (c := ⟨"ab ➔ true".toList, [0, 1, 2, 3, 5, 6, 7, 8, 9, 10]⟩) (by decide +kernel)
        (by decide +kernel) (by decide +kernel)
    have ha := outcome_simplify_of_read hread
    obtain ⟨⟨-, -, hcanonical⟩, -, -, -, hagain⟩ := answer_is_read_back ha
    obtain ⟨b, hb, hsame⟩ := hagain (by decide +kernel)
    refine ⟨_, ha, by decide +kernel, hcanonical.trans ?_, b, hb, hsame rfl⟩
    decide +kernel
  · have hread : (read {} "NOT not A & true").outcome =
        .ok (.ok (.binary .and (.neg (.neg (.var "a"))) (.const true))) :=
      read_eq_ok (c := ⟨"¬ ¬ a ⋀ true".toList, [0, 3, 4, 7, 8, 9, 10, 11, 12, 13, 14, 15, 16]⟩)
        (by decide +kernel) (by decide +kernel) (by decide +kernel)
    have ha := outcome_simplify_of_read hread
    obtain ⟨-, -, -, -, hagain⟩ := answer_is_read_back ha
    obtain ⟨b, hb, hsame⟩ := hagain (by decide +kernel)
    exact ⟨_, ha, by decide +kernel, by decide +kernel, b, hb, hsame (by decide +kernel)⟩
  · have hread : (read { limits := { operators := 1 } } "A -> B").outcome =
        .ok (.ok (.binary .implies (.var "a") (.var "b"))) :=
      read_eq_ok (c := ⟨"a ➔ b".toList, [0, 1, 2, 4, 5, 6]⟩) (by decide +kernel)
        (by decide +kernel) (by decide +kernel)
    have ha := outcome_simplify_of_read hread
    obtain ⟨-, -, -, hrefused, -⟩ := answer_is_read_back ha
    refine ⟨_, ha, by decide +kernel, (hrefused (by decide +kernel)).trans ?_⟩
    refine congrArg (Except.ok ∘ Except.error ∘ Refusal.mk .tooBigExpression) ?_
    decide +kernel

end Inquiry

end Propositional
