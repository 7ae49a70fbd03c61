import Propositional.Proofs.Inquiry.Stages
import Propositional.Proofs.Table.Restriction

/-!
# The two tables of an expression

An expression can be tabulated as it stands or after its simplification. The two tables may have
different variables, in a different order, and different columns, but they describe one function:
the simplified formula has the truth function of the expression and mentions no other variable.

* `Settings.holds_simplified`: what the settings make of a formula has its truth function.
* `tables_belong_together`: the rows of the one table against those of the other.
-/

namespace Propositional

open TruthTable

theorem Settings.holds_simplified (s : Settings) (f : Formula) (v : String → Bool) :
    (s.simplified f).result.holds v = f.holds v :=
  (s.refines_simplified f).holds_eq v

namespace Inquiry

variable {s : Settings} {text : String} {t : Tabulated} {u : SimplifiedTable}

/-- Both tables come from the formula that the text is read as. -/
theorem tables_eq (ht : (tabulate s text).outcome = .ok (.ok t))
    (hu : (simplifyAndTabulate s text).outcome = .ok (.ok u)) :
    ∃ f, t.table = s.tabulated f ∧ u.table = s.tabulated (s.simplified f).result := by
  rw [outcome_tabulate] at ht
  rw [outcome_simplifyAndTabulate] at hu
  obtain ⟨f, hf, rfl⟩ := map_map_eq_ok.mp ht
  obtain ⟨g, hg, rfl⟩ := map_map_eq_ok.mp hu
  obtain rfl : f = g := by simpa [hf] using hg
  exact ⟨f, rfl, rfl⟩

/-- **The two tables of an expression describe one function.** If an expression is tabulated both as
it stands and after its simplification, with the same settings, then

* the variables of the second table are among those of the first,
* each row gives a value to every variable of its table,
* each row of the first table restricts to exactly one row of the second, with the same result,
* each row of the second is the restriction of as many rows of the first as there are ways to fill
  in the variables that are gone,

so the number of rows doubles with each of these variables, whatever rows are hidden. -/
theorem tables_belong_together (ht : (tabulate s text).outcome = .ok (.ok t))
    (hu : (simplifyAndTabulate s text).outcome = .ok (.ok u)) :
    (∀ x ∈ u.table.names, x ∈ t.table.names) ∧
      (∀ row ∈ t.table.rows, row.assignment.map Prod.fst = t.table.names) ∧
      (∀ r ∈ u.table.rows, r.assignment.map Prod.fst = u.table.names) ∧
      (∀ row ∈ t.table.rows,
        u.table.rows.countP (fun r => restrict u.table.names row.assignment = r.assignment) = 1 ∧
          ∀ r ∈ u.table.rows, restrict u.table.names row.assignment = r.assignment →
            ∃ b, row.result? = some b ∧ r.result? = some b) ∧
      (∀ r ∈ u.table.rows,
        t.table.rows.countP (fun row => restrict u.table.names row.assignment = r.assignment) =
          2 ^ (t.table.names.filter (· ∉ u.table.names)).length) ∧
      t.table.rows.length =
        u.table.rows.length * 2 ^ (t.table.names.filter (· ∉ u.table.names)).length := by
  obtain ⟨f, hft, hfu⟩ := tables_eq ht hu
  rw [hft, hfu]
  have hfg := s.holds_simplified f
  have hsub (x : String) : x ∈ Formula.names [(s.simplified f).result] → x ∈ Formula.names [f] :=
    s.mem_names_of_simplified f
  have hone (row : Row) (hrow : row ∈ (s.tabulated f).rows) :=
    countP_rows_eq_restrict hfg hsub hrow
  have hmany (r : Row) (hr : r ∈ (s.tabulated (s.simplified f).result).rows) :=
    countP_restrict_eq_row hfg hsub hr
  exact ⟨hsub, fun row hrow => map_fst_of_mem_rows hrow, fun r hr => map_fst_of_mem_rows hr,
    fun row hrow => ⟨hone row hrow, fun r hr => result?_eq_of_restrict hfg hsub hrow hr⟩, hmany,
    length_eq_mul_of_countP hone hmany⟩

/-- `a & (a | b)` has a table of four rows, which doubles that of its simplification: simplified it is
`a`, with a table of two. The row where `a` is true and `b` is not restricts to the one row where `a`
is true, and both have the result true. -/
theorem tables_belong_together_absorbed :
    ∃ t u, (tabulate {} "a & (a | b)").outcome = .ok (.ok t) ∧
      (simplifyAndTabulate {} "a & (a | b)").outcome = .ok (.ok u) ∧
      u.table.names = ["a"] ∧ t.table.names.filter (· ∉ u.table.names) = ["b"] ∧
      t.table.rows.length = 4 ∧ u.table.rows.length = 2 ∧
      t.table.rows.length = u.table.rows.length * 2 ^ 1 ∧
      ∃ row ∈ t.table.rows, row.assignment = [("a", true), ("b", false)] ∧
        restrict u.table.names row.assignment = [("a", true)] ∧
        u.table.rows.countP (fun r => [("a", true)] = r.assignment) = 1 ∧
        ∀ r ∈ u.table.rows, [("a", true)] = r.assignment →
          row.result? = some true ∧ r.result? = some true := by
  let f : Formula := .binary .and (.var "a") (.binary .or (.var "a") (.var "b"))
  have hread : (read {} "a & (a | b)").outcome = .ok (.ok f) :=
    read_eq_ok (c := ⟨"a ⋀ (a ⋁ b)".toList, List.range 12⟩) (by decide +kernel) (by decide +kernel)
      (by decide +kernel)
  have ht := outcome_tabulate {} "a & (a | b)"
  have hu := outcome_simplifyAndTabulate {} "a & (a | b)"
  rw [hread] at ht hu
  have hsimplified : (Settings.simplified {} f).result = .var "a" := by decide +kernel
  have hnames : (Settings.tabulated {} (Settings.simplified {} f).result).names = ["a"] := by
    rw [hsimplified]
    decide +kernel
  have hgone : (Settings.tabulated {} f).names.filter
      (· ∉ (Settings.tabulated {} (Settings.simplified {} f).result).names) = ["b"] := by
    rw [hnames]
    decide +kernel
  let row : Row := ⟨[("a", true), ("b", false)], [true, false, true, true]⟩
  have hrow : row ∈ (Settings.tabulated {} f).rows := by decide +kernel
  have hrestrict : restrict ["a"] row.assignment = [("a", true)] := by decide
  obtain ⟨-, -, -, hone, -, hlength⟩ := tables_belong_together ht hu
  obtain ⟨hcount, hsame⟩ := hone row hrow
  simp only [hnames, hrestrict] at hcount hsame
  refine ⟨_, _, ht, hu, hnames, hgone, by decide +kernel, by decide +kernel,
    by rwa [hgone] at hlength, row, hrow, rfl, ?_, hcount, fun r hr hr' => ?_⟩
  · rw [hnames, hrestrict]
  · obtain ⟨b, hb, hrb⟩ := hsame r hr hr'
    obtain rfl : true = b := Option.some.inj hb
    exact ⟨rfl, hrb⟩

end Inquiry

end Propositional
