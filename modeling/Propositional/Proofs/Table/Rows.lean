import Propositional.Proofs.Formula.Columns
import Propositional.Proofs.Formula.Truth
import Propositional.Proofs.Outcome
import Propositional.Table.Basic

/-!
# The rows of a truth table

A table can always be built: its assignments cover the variables of all its columns, so that every
column has its value in every row.

* `mem_assignments_iff`, `nodup_assignments`: the assignments of some variables are all lists that
  give each of them a value, in order, and each list once.
* `build_eq`: the table of some columns, with the truth functions of the columns in each row.
* `build_columns_eq`: the table of a formula, as `ofFormula`.
* `rows_ofFormula_perm`: its rows are, in some order, those of the assignments under which the
  formula has a value that is not hidden.
-/

namespace Propositional

/-- Whether rows with the result `b` are kept. -/
def Hiding.shows (hide : Hiding) (b : Bool) : Bool := hide.hidden? ≠ some b

namespace TruthTable

open Outcome

variable {xs : List String} {x : String} {a : List (String × Bool)} {columns : List Formula}
  {f : Formula} {hide : Hiding} {order : RowOrder}

/-! ## All assignments -/

theorem mem_assignments_iff : a ∈ assignments xs ↔ a.map Prod.fst = xs := by
  induction xs generalizing a with
  | nil => simp [assignments]
  | cons x xs ih =>
    rw [assignments, List.mem_append, List.mem_map, List.mem_map]
    constructor
    · rintro (⟨a, ha, rfl⟩ | ⟨a, ha, rfl⟩)
      · rw [List.map_cons, ih.mp ha]
      · rw [List.map_cons, ih.mp ha]
    · intro ha
      cases a with
      | nil => cases ha
      | cons e a =>
        obtain ⟨y, b⟩ := e
        obtain ⟨rfl, htail⟩ := List.cons.inj ha
        cases b with
        | false => exact Or.inl ⟨a, ih.mpr htail, rfl⟩
        | true => exact Or.inr ⟨a, ih.mpr htail, rfl⟩

theorem nodup_assignments (xs : List String) : (assignments xs).Nodup := by
  induction xs with
  | nil => simp [assignments]
  | cons x xs ih =>
    have hcons (b : Bool) : ((assignments xs).map ((x, b) :: ·)).Nodup :=
      List.Pairwise.map _ (fun _ _ hne heq => hne (List.cons.inj heq).2) ih
    rw [assignments, List.nodup_append]
    refine ⟨hcons false, hcons true, ?_⟩
    rintro _ ha _ hb rfl
    obtain ⟨a, -, rfl⟩ := List.mem_map.mp ha
    obtain ⟨b, -, hb⟩ := List.mem_map.mp hb
    cases hb

/-- The value that an assignment gives to a variable, where it gives one. -/
def valuation (a : List (String × Bool)) (x : String) : Bool := (a.lookup x).getD false

theorem lookup_eq_valuation (h : x ∈ a.map Prod.fst) : a.lookup x = some (valuation a x) := by
  obtain ⟨b, hb⟩ : ∃ b, a.lookup x = some b := by
    induction a with
    | nil => cases h
    | cons e a ih =>
      obtain ⟨y, c⟩ := e
      by_cases hxy : x = y
      · exact ⟨c, by rw [hxy, List.lookup_cons_self]⟩
      · have hbeq : (x == y) = false := by simpa using hxy
        have htail : x ∈ a.map Prod.fst := (List.mem_cons.mp h).resolve_left hxy
        obtain ⟨b, hb⟩ := ih htail
        exact ⟨b, by rw [List.lookup_cons, hbeq]; exact hb⟩
  rw [valuation, hb]
  rfl

/-- An assignment is the list of its values, if no variable has two. -/
theorem eq_map_valuation (h : (a.map Prod.fst).Nodup) :
    a = (a.map Prod.fst).map fun x => (x, valuation a x) := by
  induction a with
  | nil => rfl
  | cons e a ih =>
    obtain ⟨y, c⟩ := e
    obtain ⟨hnot, hnodup⟩ := List.nodup_cons.mp h
    have hhead : valuation ((y, c) :: a) y = c := by
      rw [valuation, List.lookup_cons_self]
      rfl
    have htail : ∀ x ∈ a.map Prod.fst, valuation ((y, c) :: a) x = valuation a x := by
      intro x hx
      have hbeq : (x == y) = false := by simpa using fun hxy : x = y => hnot (hxy ▸ hx)
      rw [valuation, valuation, List.lookup_cons, hbeq]
    rw [List.map_cons, List.map_cons, hhead]
    refine congrArg _ ((ih hnodup).trans ?_)
    exact (List.map_congr_left fun x hx => by rw [htail x hx]).symm

/-! ## Building a table -/

/-- The row for an assignment: the truth value of each column. -/
def Row.under (columns : List Formula) (a : List (String × Bool)) : Row :=
  ⟨a, columns.map (·.holds (valuation a))⟩

/-- An assignment of all variables of the columns gives each column its value. -/
theorem mapM_evaluate (h : ∀ c ∈ columns, ∀ x ∈ Formula.names [c], x ∈ a.map Prod.fst) :
    columns.mapM (·.evaluate (Assignment.ofList a)) =
      .ok (columns.map (·.holds (valuation a))) :=
  mapM_eq_ok fun c hc => Formula.evaluate_eq_holds fun x hx => lookup_eq_valuation (h c hc x hx)

theorem Row.of_eq_under (h : ∀ c ∈ columns, ∀ x ∈ Formula.names [c], x ∈ a.map Prod.fst) :
    Row.of columns a = .ok (Row.under columns a) := by
  rw [Row.of, mapM_evaluate h]
  rfl

/-- **A table can always be built.** -/
theorem build_eq (columns : List Formula) (hide : Hiding) (order : RowOrder) :
    build columns hide order =
      .ok ⟨Formula.names columns, columns,
        ordered order (visible hide ((assignments (Formula.names columns)).map
          (Row.under columns)))⟩ := by
  have hrows : (assignments (Formula.names columns)).mapM (Row.of columns) =
      .ok ((assignments (Formula.names columns)).map (Row.under columns)) := by
    refine mapM_eq_ok fun a ha => Row.of_eq_under fun c hc x hx => ?_
    rw [mem_assignments_iff.mp ha]
    exact Formula.mem_names_iff_exists.mpr ⟨c, hc, hx⟩
  rw [build, hrows]
  rfl

/-! ## The table of a formula -/

/-- The assignments of the variables of `f` that give it a value that is not hidden. -/
def shownAssignments (f : Formula) (hide : Hiding) : List (List (String × Bool)) :=
  (assignments (Formula.names [f])).filter fun a => hide.shows (f.holds (valuation a))

theorem mem_shownAssignments_iff :
    a ∈ shownAssignments f hide ↔
      a.map Prod.fst = Formula.names [f] ∧ hide.shows (f.holds (valuation a)) = true := by
  rw [shownAssignments, List.mem_filter, mem_assignments_iff]

/-- The table of a formula and its parts. -/
def ofFormula (f : Formula) (hideIntermediate : Bool) (hide : Hiding) (order : RowOrder) :
    TruthTable where
  names := Formula.names [f]
  columns := f.columns hideIntermediate
  rows := ordered order (visible hide
    ((assignments (Formula.names [f])).map (Row.under (f.columns hideIntermediate))))

theorem build_columns_eq (f : Formula) (hideIntermediate : Bool) (hide : Hiding)
    (order : RowOrder) :
    build (f.columns hideIntermediate) hide order =
      .ok (ofFormula f hideIntermediate hide order) := by
  rw [build_eq, Formula.names_columns]
  rfl

/-- The result of a row is the value of the formula. -/
theorem result?_under (f : Formula) (hideIntermediate : Bool) (a : List (String × Bool)) :
    (Row.under (f.columns hideIntermediate) a).result? = some (f.holds (valuation a)) := by
  rw [Row.result?, Row.under, List.getLast?_map, f.getLast?_columns]
  rfl

theorem ordered_perm (order : RowOrder) (rows : List Row) : (ordered order rows).Perm rows := by
  unfold ordered
  split
  · exact .refl rows
  · rename_i b _
    have h := List.filter_append_perm (fun row : Row => decide (row.result? = some b)) rows
    simpa using h

theorem visible_map_under (f : Formula) (hideIntermediate : Bool) (hide : Hiding)
    (as : List (List (String × Bool))) :
    visible hide (as.map (Row.under (f.columns hideIntermediate))) =
      (as.filter fun a => hide.shows (f.holds (valuation a))).map
        (Row.under (f.columns hideIntermediate)) := by
  unfold visible Hiding.shows
  cases hide.hidden? with
  | none =>
    refine congrArg _ (List.filter_eq_self.mpr fun a _ => ?_).symm
    simp
  | some b =>
    simp only [List.filter_map]
    refine congrArg _ (List.filter_congr fun a _ => ?_)
    simp [result?_under, eq_comm]

/-- **The rows of the table of a formula**, apart from their order. -/
theorem rows_ofFormula_perm (f : Formula) (hideIntermediate : Bool) (hide : Hiding)
    (order : RowOrder) :
    (ofFormula f hideIntermediate hide order).rows.Perm
      ((shownAssignments f hide).map (Row.under (f.columns hideIntermediate))) := by
  refine (ordered_perm order _).trans ?_
  rw [visible_map_under]
  exact .refl _

theorem mem_rows_ofFormula_iff {hideIntermediate : Bool} {row : Row} :
    row ∈ (ofFormula f hideIntermediate hide order).rows ↔
      ∃ a ∈ shownAssignments f hide, Row.under (f.columns hideIntermediate) a = row := by
  rw [(rows_ofFormula_perm f hideIntermediate hide order).mem_iff, List.mem_map]

/-- A row gives a value to each variable of its table. -/
theorem map_fst_of_mem_rows {hideIntermediate : Bool} {row : Row}
    (h : row ∈ (ofFormula f hideIntermediate hide order).rows) :
    row.assignment.map Prod.fst = Formula.names [f] := by
  obtain ⟨a, ha, rfl⟩ := mem_rows_ofFormula_iff.mp h
  exact (mem_shownAssignments_iff.mp ha).1

theorem countP_rows_ofFormula (p : List (String × Bool) → Bool) (f : Formula)
    (hideIntermediate : Bool) (hide : Hiding) (order : RowOrder) :
    (ofFormula f hideIntermediate hide order).rows.countP (fun row => p row.assignment) =
      (shownAssignments f hide).countP p := by
  rw [(rows_ofFormula_perm f hideIntermediate hide order).countP_eq, List.countP_map]
  rfl

end TruthTable

end Propositional
