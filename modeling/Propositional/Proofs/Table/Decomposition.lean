import Propositional.Proofs.Formula.Decomposition
import Propositional.Proofs.Grammar.RoundTrip
import Propositional.Proofs.Table.Rows

/-!
# The table of a formula takes it apart

The columns of a formula are its variables, its parts from the bottom up, and the formula itself,
each once. So a row begins with its assignment, and every further value can be had from values on
its left.

* `Row.value?`: what a row says of a formula that has a column, or is a constant. `Row.value?_under`
  reads it off a row of a table.
* `take_values_under`: the first values of a row are those of the variables.
* `Row.Computes`: each value with a connective at its root is made of the values of its operands.
* `columns_decompose`: the columns of a formula and the rows of its table.
-/

namespace Propositional.TruthTable

variable {a : List (String × Bool)} {columns : List Formula} {f g : Formula} {row : Row}

/-! ## What a row says of a formula -/

/-- The value of a formula in a row: that of its column, and a constant stands for itself. -/
def Row.value? (columns : List Formula) (row : Row) : Formula → Option Bool
  | .const b => some b
  | g => (columns.zip row.values).lookup g

theorem lookup_zip_map {h : Formula → Bool} (hg : g ∈ columns) :
    (columns.zip (columns.map h)).lookup g = some (h g) := by
  induction columns with
  | nil => cases hg
  | cons c columns ih =>
    rw [List.map_cons, List.zip_cons_cons]
    by_cases hgc : g = c
    · rw [hgc, List.lookup_cons_self]
    · have hbeq : (g == c) = false := by simpa using hgc
      rw [List.lookup_cons, hbeq]
      exact ih ((List.mem_cons.mp hg).resolve_left hgc)

theorem Row.value?_under (hg : (∀ b, g ≠ .const b) → g ∈ columns) :
    (Row.under columns a).value? columns g = some (g.holds (valuation a)) := by
  cases g with
  | const b => rfl
  | var _ | neg _ | binary _ _ _ => exact lookup_zip_map (hg (by simp))

/-- **A row computes its values**: every cell is the value of its column, and a column with a
connective at its root has what the connective makes of the values of the operands. -/
structure Row.Computes (columns : List Formula) (row : Row) : Prop where
  cell : ∀ (i : Nat) (g : Formula), columns[i]? = some g → row.values[i]? = row.value? columns g
  neg : ∀ c, .neg c ∈ columns →
    ∃ b, row.value? columns c = some b ∧ row.value? columns (.neg c) = some !b
  binary : ∀ op l r, .binary op l r ∈ columns →
    ∃ b b', row.value? columns l = some b ∧ row.value? columns r = some b' ∧
      row.value? columns (.binary op l r) = some (op.combine b b')

/-- In columns from the bottom up there is a value for every operand. -/
theorem Row.computes_under (h : Formula.BottomUp columns) (a : List (String × Bool)) :
    Row.Computes columns (Row.under columns a) := by
  refine ⟨fun i g hi => ?_, fun c hc => ?_, fun op l r hlr => ?_⟩
  · rw [Row.value?_under fun _ => List.mem_of_getElem? hi, Row.under, List.getElem?_map, hi]
    rfl
  · exact ⟨_, Row.value?_under (h.mem_of_mem_children hc (by simp [Formula.children])),
      Row.value?_under fun _ => hc⟩
  · exact ⟨_, _, Row.value?_under (h.mem_of_mem_children hlr (by simp [Formula.children])),
      Row.value?_under (h.mem_of_mem_children hlr (by simp [Formula.children])),
      Row.value?_under fun _ => hlr⟩

/-- **A row begins with its assignment**, if the columns begin with the variables. -/
theorem take_values_under {xs : List String} (hxs : xs.Nodup) (ha : a.map Prod.fst = xs)
    (hfront : xs.map Formula.var <+: columns) :
    (Row.under columns a).values.take xs.length = a.map Prod.snd := by
  obtain ⟨rest, rfl⟩ := hfront
  have hentries := eq_map_valuation (ha ▸ hxs)
  rw [ha] at hentries
  rw [Row.under, List.map_append, List.take_left' (by simp), List.map_map]
  conv => rhs; rw [hentries, List.map_map]
  rfl

/-! ## The headers -/

/-- The columns of a formula mention none but its variables. -/
theorem mem_names_of_mem_columns {hideIntermediate : Bool} {x : String}
    (hg : g ∈ f.columns hideIntermediate) (hx : x ∈ Formula.names [g]) : x ∈ Formula.names [f] := by
  rw [← Formula.names_columns f hideIntermediate]
  exact Formula.mem_names_iff_exists.mpr ⟨g, hg, hx⟩

/-- With legal names no two columns have the same header. -/
theorem nodup_map_render_columns (f : Formula) (hideIntermediate : Bool)
    (h : ∀ x ∈ Formula.names [f], LegalName x) :
    ((f.columns hideIntermediate).map Formula.render).Nodup := by
  have hlegal (g : Formula) (hg : g ∈ f.columns hideIntermediate) :
      ∀ x ∈ Formula.names [g], LegalName x := fun x hx => h x (mem_names_of_mem_columns hg hx)
  rw [List.Nodup, List.pairwise_map]
  refine List.Pairwise.imp_of_mem (fun hg hg' hne hsame => hne ?_) (nodup_distinct _)
  exact render_injective (hlegal _ hg) (hlegal _ hg') hsame

/-! ## The columns of a formula and its table -/

/-- **The columns of a formula are complete, without duplicates, and listed from the bottom up.**
They begin with the variables of the formula in their order and end with the formula, no two are
equal, they are the variables, all parts that have operands and the formula itself, and each comes
after its operands, constants apart.

So a table of them, with or without the inner parts, whatever rows are hidden and in whatever order,
is about the variables of the formula, and the first values of each row are its assignment. With the
inner parts every column that is not a variable or a constant has the value that its connective
makes of those of its operands. And if all names are legal, the headers are pairwise distinct. -/
theorem columns_decompose (f : Formula) :
    ((Formula.names [f]).map Formula.var <+: f.columns false ∧
      (f.columns false).getLast? = some f ∧ (f.columns false).Nodup ∧
      (∀ g, g ∈ f.columns false ↔ (∃ x ∈ Formula.names [f], g = .var x) ∨
        (g.isCompound = true ∧ ∃ c : Context, c.fill g = f) ∨ g = f) ∧
      Formula.BottomUp (f.columns false)) ∧
    ∀ (hideIntermediate : Bool) (hide : Hiding) (order : RowOrder),
      ∃ t, build (f.columns hideIntermediate) hide order = .ok t ∧
        t.names = Formula.names [f] ∧ t.columns = f.columns hideIntermediate ∧
        (∀ row ∈ t.rows, row.assignment.map Prod.fst = Formula.names [f] ∧
          row.values.take (Formula.names [f]).length = row.assignment.map Prod.snd) ∧
        (hideIntermediate = false → ∀ row ∈ t.rows, row.Computes t.columns) ∧
        ((∀ x ∈ Formula.names [f], LegalName x) → t.header.Nodup) := by
  refine ⟨⟨f.map_var_names_prefix_columns false, f.getLast?_columns false, nodup_distinct _,
    fun g => Formula.mem_columns_iff, f.bottomUp_columns⟩, fun hideIntermediate hide order =>
    ⟨_, build_columns_eq f hideIntermediate hide order, rfl, rfl, fun row hrow => ?_, ?_,
      nodup_map_render_columns f hideIntermediate⟩⟩
  · obtain ⟨a, ha, rfl⟩ := mem_rows_ofFormula_iff.mp hrow
    have hkeys := (mem_shownAssignments_iff.mp ha).1
    exact ⟨hkeys, take_values_under (Formula.nodup_names [f]) hkeys
      (f.map_var_names_prefix_columns hideIntermediate)⟩
  · rintro rfl row hrow
    obtain ⟨a, -, rfl⟩ := mem_rows_ofFormula_iff.mp hrow
    exact Row.computes_under f.bottomUp_columns a

/-- `¬A⋀(¬A➔True)` has a column for `¬A` once, and none for `True`. If `A` is true, the first
operand is false, so the formula is false, which leaves this row where true results are hidden. -/
theorem columns_decompose_repeated :
    let f : Formula := .binary .and (.neg (.var "A"))
      (.binary .implies (.neg (.var "A")) (.const true))
    let row : Row := ⟨[("A", true)], [true, false, true, false]⟩
    f.columns false = [.var "A", .neg (.var "A"),
        .binary .implies (.neg (.var "A")) (.const true), f] ∧
      (∀ x ∈ Formula.names [f], LegalName x) ∧
      ∃ t, build (f.columns false) .whereTrue .counting = .ok t ∧ t.rows = [row] ∧
        row.Computes t.columns ∧ row.values.take 1 = [true] ∧ t.header.Nodup := by
  intro f row
  have hlegal : ∀ x ∈ Formula.names [f], LegalName x := by decide +kernel
  obtain ⟨t, hbuild, -, -, hassigned, hcomputes, hheader⟩ :=
    (columns_decompose f).2 false .whereTrue .counting
  have hrows : (build (f.columns false) .whereTrue .counting).map TruthTable.rows = .ok [row] := by
    decide +kernel
  rw [hbuild] at hrows
  have hrows : t.rows = [row] := Except.ok.inj hrows
  have hrow : row ∈ t.rows := by simp [hrows]
  have hlength : (Formula.names [f]).length = 1 := by decide +kernel
  have htake := (hassigned row hrow).2
  rw [hlength] at htake
  exact ⟨by decide +kernel, hlegal, t, hbuild, hrows, hcomputes rfl row hrow, htake, hheader hlegal⟩

end Propositional.TruthTable
