import Propositional.Proofs.Violation.Agreement

/-!
# What the check counts is the size of the formula

The check looks at tokens only, and parentheses are tokens too. Its counts are still those of the
formula: the names, leaves and operators of what the tokens derive. So a text that was let through
is never too deep to be parsed, as long as the limit on operators is below the limit on the depth.

* `Derives.names_eq`: the names of a derived formula are the names among its tokens, in the order in
  which they first occur.
* `Limits.Admits`: a formula keeps to the limits. `check_eq_none_iff_admits` says that the check
  lets through exactly the texts of such formulas.
* `parse_of_check`: every text that is let through is parsed.
* `counts_are_measures`: all counts, the verdict that they lead to, and that parsing cannot fail.
-/

namespace Propositional

variable {L : Stratum} {ts : List Token} {f : Formula} {limits : Limits} {text : List Char}
  {maxDepth : Int}

/-- A formula that keeps to the limits. -/
structure Limits.Admits (limits : Limits) (f : Formula) : Prop where
  names : ((Formula.names [f]).length : Int) ≤ limits.names
  operands : (f.leafCount : Int) ≤ limits.operands
  operators : (f.operatorCount : Int) ≤ limits.operators

theorem Limits.admits_iff :
    limits.Admits f ↔ ((Formula.names [f]).length : Int) ≤ limits.names ∧
      (f.leafCount : Int) ≤ limits.operands ∧ (f.operatorCount : Int) ≤ limits.operators :=
  ⟨fun h => ⟨h.names, h.operands, h.operators⟩, fun ⟨h₁, h₂, h₃⟩ => ⟨h₁, h₂, h₃⟩⟩

/-! ## Counting tokens -/

/-- **The names of a formula are the names among its tokens**, each at its first occurrence. -/
theorem Derives.names_eq (h : Derives L ts f) :
    Formula.names [f] = (Violation.names ts).map String.ofList := by
  rw [Violation.names, ← distinct_map (fun _ _ heq => String.ofList_injective heq),
    Formula.names_eq_distinct_leaves, h.leaves_eq, List.filterMap_filterMap, List.map_map]
  simp only [Token.name?_leaf?]
  congr 1
  rw [← List.filterMap_eq_map, List.filterMap_filter]
  rfl

theorem Derives.ofSize_eq_none_iff (h : Derives L ts f) :
    Violation.ofSize limits ts = none ↔ limits.Admits f := by
  rw [Violation.ofSize_eq_none_iff, Limits.admits_iff, h.names_eq, h.leafCount_eq,
    h.operatorCount_eq, List.length_map]
  rfl

/-! ## The verdict on a text -/

/-- For the text of an expression only its size is left to be checked. -/
theorem check_of_derives (h : Derives .implication (Token.scan text) f) :
    Violation.check limits text =
      (Violation.exceeding (Formula.names [f]).length limits.names).or
        ((Violation.exceeding f.leafCount limits.operands).or
          (Violation.exceeding f.operatorCount limits.operators)) := by
  have hstruct : Violation.ofStructure (Token.scan text) text.length = none :=
    ofStructure_eq_none_iff.mpr ⟨f, h⟩
  rw [Violation.check_of_legal (not_blank_of_derives h) h.legal, hstruct, Option.none_or, h.names_eq,
    h.leafCount_eq, h.operatorCount_eq, List.length_map]
  simp only [Violation.ofSize, Option.orElse_eq_orElse, Option.orElse_eq_or]
  rfl

/-- **The check lets through the texts of formulas that keep to the limits.** -/
theorem check_eq_none_iff_admits :
    Violation.check limits text = none ↔
      ∃ f, Derives .implication (Token.scan text) f ∧ limits.Admits f := by
  rw [Violation.check_eq_none_iff]
  constructor
  · rintro ⟨-, -, hstruct, hsize⟩
    obtain ⟨f, hd⟩ := ofStructure_eq_none_iff.mp hstruct
    exact ⟨f, hd, hd.ofSize_eq_none_iff.mp hsize⟩
  · rintro ⟨f, hd, hadmits⟩
    exact ⟨not_blank_of_derives hd, hd.legal, ofStructure_eq_none_iff.mpr ⟨f, hd⟩,
      hd.ofSize_eq_none_iff.mpr hadmits⟩

/-- **A text that is let through is parsed**, because each operator adds at most one level. -/
theorem parse_of_check (hlt : limits.operators < maxDepth)
    (h : Violation.check limits text = none) :
    ∃ f, Formula.parse text maxDepth = .ok f ∧ limits.Admits f := by
  obtain ⟨f, hd, hadmits⟩ := check_eq_none_iff_admits.mp h
  have hdepth := f.depth_le_operatorCount
  have hoperators := hadmits.operators
  exact ⟨f, Formula.parse_eq_ok_iff.mpr ⟨ofTokens_of_derives hd, by omega⟩, hadmits⟩

theorem Violation.exceeding_of_lt {n : Nat} {limit : Int} (h : limit < n) :
    exceeding n limit = some (.tooBig n limit) := if_pos h

/-- **The counts of the check are the measures of the formula.** If the tokens of a text are in
their places, where an illegal character never is, then the text is parsed, given enough depth, as a
formula of which

* the names are those among the tokens, in the order of their first occurrence,
* the leaves are as many as the operands, and the other nodes as many as the operators,
* the depth exceeds the number of operators by at most one;

and for all limits the check finds nothing exactly if the three counts keep to them, and otherwise
the first count that does not, in this order. So a text that is let through, whatever it is, can be
parsed as soon as the limit on operators is below the limit on the depth. -/
theorem counts_are_measures (text : List Char) :
    (Violation.ofStructure (Token.scan text) text.length = none →
      ∃ f, (∀ maxDepth : Int, (f.depth : Int) ≤ maxDepth → Formula.parse text maxDepth = .ok f) ∧
        Formula.names [f] = (Violation.names (Token.scan text)).map String.ofList ∧
        Violation.operandCount (Token.scan text) = f.leafCount ∧
        Violation.operatorCount (Token.scan text) = f.operatorCount ∧
        f.leafCount + f.operatorCount = f.size ∧
        f.depth ≤ f.operatorCount + 1 ∧
        ∀ limits : Limits,
          (Violation.check limits text = none ↔
            ((Formula.names [f]).length : Int) ≤ limits.names ∧
              (f.leafCount : Int) ≤ limits.operands ∧
              (f.operatorCount : Int) ≤ limits.operators) ∧
          (limits.names < (Formula.names [f]).length →
            Violation.check limits text = some (.tooBig (Formula.names [f]).length limits.names)) ∧
          (((Formula.names [f]).length : Int) ≤ limits.names → limits.operands < f.leafCount →
            Violation.check limits text = some (.tooBig f.leafCount limits.operands)) ∧
          (((Formula.names [f]).length : Int) ≤ limits.names →
            (f.leafCount : Int) ≤ limits.operands → limits.operators < f.operatorCount →
            Violation.check limits text = some (.tooBig f.operatorCount limits.operators))) ∧
      ∀ (limits : Limits) (maxDepth : Int), limits.operators < maxDepth →
        Violation.check limits text = none → ∃ f, Formula.parse text maxDepth = .ok f := by
  constructor
  · intro hstruct
    obtain ⟨f, hd⟩ := ofStructure_eq_none_iff.mp hstruct
    refine ⟨f, fun maxDepth hle => Formula.parse_eq_ok_iff.mpr ⟨ofTokens_of_derives hd, hle⟩,
      hd.names_eq, hd.leafCount_eq.symm, hd.operatorCount_eq.symm, f.leafCount_add_operatorCount,
      f.depth_le_operatorCount, fun limits => ?_⟩
    rw [check_of_derives hd]
    refine ⟨?_, fun hnames => ?_, fun hnames hoperands => ?_, fun hnames hoperands hoperators => ?_⟩
    · simp only [Option.or_eq_none_iff, Violation.exceeding_eq_none_iff]
    · rw [Violation.exceeding_of_lt hnames, Option.some_or]
    · rw [Violation.exceeding_eq_none_iff.mpr hnames, Violation.exceeding_of_lt hoperands,
        Option.none_or, Option.some_or]
    · rw [Violation.exceeding_eq_none_iff.mpr hnames, Violation.exceeding_eq_none_iff.mpr hoperands,
        Violation.exceeding_of_lt hoperators, Option.none_or, Option.none_or]
  · intro limits maxDepth hlt hcheck
    obtain ⟨f, hf, -⟩ := parse_of_check hlt hcheck
    exact ⟨f, hf⟩

/-- `(A⋀¬B)⋁A` has two names, three operands and three operators: it is refused if only two
operators are allowed, and parsed if three are. -/
theorem counts_are_measures_grouped :
    let text := "(A⋀¬B)⋁A".toList
    (Violation.ofStructure (Token.scan text) text.length = none ∧
      ∃ f, Formula.parse text 4 = .ok f ∧ Formula.names [f] = ["A", "B"] ∧ f.leafCount = 3 ∧
        f.operatorCount = 3 ∧ Violation.check ⟨2, 3, 2⟩ text = some (.tooBig 3 2)) ∧
      Violation.check ⟨2, 3, 3⟩ text = none ∧ ∃ f, Formula.parse text 4 = .ok f := by
  intro text
  have hstruct : Violation.ofStructure (Token.scan text) text.length = none := by decide +kernel
  have hnone : Violation.check ⟨2, 3, 3⟩ text = none := by decide +kernel
  have hscan : (Violation.names (Token.scan text)).map String.ofList = ["A", "B"] ∧
      Violation.operandCount (Token.scan text) = 3 ∧
      Violation.operatorCount (Token.scan text) = 3 := by decide +kernel
  obtain ⟨f, hparse, hnames, hoperands, hoperators, -, hdepth, hcheck⟩ :=
    (counts_are_measures text).1 hstruct
  rw [hscan.1] at hnames
  rw [hscan.2.1] at hoperands
  rw [hscan.2.2] at hoperators
  refine ⟨⟨hstruct, f, hparse 4 (by omega), hnames, hoperands.symm, hoperators.symm, ?_⟩, hnone,
    (counts_are_measures text).2 ⟨2, 3, 3⟩ 4 (by decide) hnone⟩
  have htoo := (hcheck ⟨2, 3, 2⟩).2.2.2
  rw [hnames, ← hoperands, ← hoperators] at htoo
  exact htoo (by decide) (by decide) (by decide)

end Propositional
