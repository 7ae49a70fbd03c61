import Mathlib.Algebra.Ring.Nat
import Propositional.Proofs.Table.Rows

/-!
# A table counts through all assignments

The rows of a table are numbered by the binary numbers below `2 ^ n` for `n` variables, and the
first variable has the highest bit. Hiding keeps some of the rows, and ordering is a stable sort by
their results. Both look at the results only, so it does not matter which comes first; and rows that
are left with one result have nothing to be ordered by.

* `assignments_eq_map_range`: the assignments are those of the numbers below `2 ^ n`, one after the
  other.
* `visible_eq_filter`, `ordered_eq_mergeSort`: hiding and ordering in terms of a filter and a sort.
* `ordered_visible`, `ordered_visible_of_hidden`: the two of them together.
* `build_enumerates`: all tables of some columns, in terms of the one without hiding and ordering.
-/

namespace Propositional

/-! ## Sorting by a yes or no -/

/-- A list with all entries of the one kind before those of the other is cut into the two kinds. -/
theorem eq_filter_append_of_pairwise {α : Type} {p : α → Bool} {as : List α}
    (h : as.Pairwise fun a b => (p a || !p b) = true) :
    as = as.filter p ++ as.filter (!p ·) := by
  induction as with
  | nil => rfl
  | cons a as ih =>
    obtain ⟨hhead, htail⟩ := List.pairwise_cons.mp h
    cases hp : p a with
    | true =>
      rw [List.filter_cons_of_pos hp, List.filter_cons_of_neg (by simp [hp]), List.cons_append]
      exact congrArg _ (ih htail)
    | false =>
      -- behind an entry of the second kind there are only such entries
      have hnone : ∀ b ∈ a :: as, ¬ p b = true :=
        List.forall_mem_cons.mpr ⟨by simp [hp], fun b hb => by simpa [hp] using hhead b hb⟩
      rw [List.filter_eq_nil_iff.mpr hnone, List.filter_eq_self.mpr fun b hb => by
        simpa using hnone b hb]
      rfl

/-- **A stable sort by a yes or no** takes the one kind before the other, each in its old order. -/
theorem mergeSort_eq_filter_append {α : Type} (p : α → Bool) (as : List α) :
    as.mergeSort (fun a b => p a || !p b) = as.filter p ++ as.filter (!p ·) := by
  let le : α → α → Bool := fun a b => p a || !p b
  have htrans (a b c : α) (hab : le a b = true) (hbc : le b c = true) : le a c = true := by
    simp only [le, Bool.or_eq_true, Bool.not_eq_true'] at hab hbc ⊢
    rcases hab with ha | hb
    · exact Or.inl ha
    · exact Or.inr (hbc.resolve_left (by simp [hb]))
  have htotal (a b : α) : (le a b || le b a) = true := by
    cases ha : p a <;> simp [le, ha]
  -- entries of one kind are sorted already, so they stay as they are
  have hkind (q : α → Bool) (hq : ∀ a b, q a = true → q b = true → le a b = true) :
      (as.mergeSort le).filter q = as.filter q := by
    have hsorted : (as.filter q).Pairwise fun a b => le a b = true :=
      List.pairwise_of_forall_mem_list fun a ha b hb =>
        hq a b (List.mem_filter.mp ha).2 (List.mem_filter.mp hb).2
    have hsub := (List.sublist_mergeSort htrans htotal hsorted List.filter_sublist).filter q
    rw [List.filter_filter] at hsub
    simp only [Bool.and_self] at hsub
    exact (hsub.eq_of_length ((as.mergeSort_perm le).filter q).length_eq.symm).symm
  have hcut := eq_filter_append_of_pairwise (List.pairwise_mergeSort htrans htotal as)
  rw [hkind p fun a b ha _ => by simp [le, ha], hkind (!p ·) fun a b _ hb => by
    simpa [le] using Or.inr hb] at hcut
  exact hcut

/-- Whether a row can be left before another one: it has the leading result, or the other has
not. -/
def RowOrder.precedes (order : RowOrder) (r s : TruthTable.Row) : Bool :=
  match order.leading? with
  | none => true
  | some b => r.result? = some b || !(s.result? = some b)

namespace TruthTable

variable {xs : List String} {n : Nat} {columns : List Formula} {rows : List Row} {hide : Hiding}

/-! ## Assignments by number -/

/-- The assignment with the number `k`: the first variable has the highest bit. -/
def numbered (xs : List String) (k : Nat) : List (String × Bool) :=
  xs.mapIdx fun j x => (x, k.testBit (xs.length - 1 - j))

theorem numbered_cons (x : String) (xs : List String) (k : Nat) :
    numbered (x :: xs) k = (x, k.testBit xs.length) :: numbered xs k := by
  have hbit (j : Nat) : (x :: xs).length - 1 - (j + 1) = xs.length - 1 - j := by
    rw [List.length_cons]
    omega
  simp only [numbered, List.mapIdx_cons, hbit]
  rfl

/-- A higher bit than those of the variables does not matter. -/
theorem numbered_two_pow_add (h : xs.length ≤ n) (k : Nat) :
    numbered xs (2 ^ n + k) = numbered xs k := by
  induction xs with
  | nil => rfl
  | cons x xs ih =>
    rw [List.length_cons] at h
    rw [numbered_cons, numbered_cons, Nat.testBit_two_pow_add_gt h, ih (Nat.le_of_succ_le h)]

/-- **The assignments are numbered in counting order.** -/
theorem assignments_eq_map_range (xs : List String) :
    assignments xs = (List.range (2 ^ xs.length)).map (numbered xs) := by
  induction xs with
  | nil => rfl
  | cons x xs ih =>
    have hfalse : ∀ k ∈ List.range (2 ^ xs.length),
        numbered (x :: xs) k = (x, false) :: numbered xs k := by
      intro k hk
      rw [numbered_cons, Nat.testBit_lt_two_pow (List.mem_range.mp hk)]
    have htrue : ∀ k ∈ List.range (2 ^ xs.length),
        numbered (x :: xs) (2 ^ xs.length + k) = (x, true) :: numbered xs k := by
      intro k hk
      rw [numbered_cons, Nat.testBit_two_pow_add_eq, Nat.testBit_lt_two_pow (List.mem_range.mp hk),
        numbered_two_pow_add (Nat.le_refl _)]
      rfl
    rw [assignments, ih, List.length_cons, Nat.pow_succ, Nat.mul_two, List.range_add, List.map_append,
      List.map_map, List.map_map, List.map_map, List.map_congr_left hfalse]
    exact congrArg _ (List.map_congr_left fun k hk => (htrue k hk).symm)

/-! ## Hiding and ordering -/

/-- With a column, every row has a result. -/
theorem isSome_result?_under (hne : columns ≠ []) (a : List (String × Bool)) :
    (Row.under columns a).result?.isSome = true := by
  simpa [Row.result?, Row.under] using hne

/-- **Hiding keeps the rows with another result**, as they are. -/
theorem visible_eq_filter (h : ∀ row ∈ rows, row.result?.isSome = true) (hide : Hiding) :
    visible hide rows = rows.filter fun row => row.result? ≠ hide.hidden? := by
  unfold visible
  split
  · rename_i hnone
    rw [hnone]
    refine (List.filter_eq_self.mpr fun row hrow => ?_).symm
    simpa [Option.isSome_iff_ne_none] using h row hrow
  · rename_i b hb
    rw [hb]

/-- **Ordering is a stable sort.** -/
theorem ordered_eq_mergeSort (order : RowOrder) (rows : List Row) :
    ordered order rows = rows.mergeSort order.precedes := by
  unfold ordered RowOrder.precedes
  cases order.leading? with
  | none =>
    exact (List.mergeSort_of_pairwise (List.pairwise_of_forall_mem_list fun _ _ _ _ => rfl)).symm
  | some b =>
    rw [mergeSort_eq_filter_append fun row : Row => decide (row.result? = some b)]
    simp only [ne_eq, decide_not]

/-- **Hiding and ordering commute.** -/
theorem ordered_visible (order : RowOrder) (hide : Hiding) (rows : List Row) :
    ordered order (visible hide rows) = visible hide (ordered order rows) := by
  unfold ordered visible
  cases order.leading? with
  | none => rfl
  | some b =>
    cases hide.hidden? with
    | none => rfl
    | some c =>
      simp only [List.filter_append, List.filter_filter, Bool.and_comm]

/-- Rows with the same result are not moved. -/
theorem ordered_of_forall_result {b : Bool} (h : ∀ row ∈ rows, row.result? = some b)
    (order : RowOrder) : ordered order rows = rows := by
  rw [ordered_eq_mergeSort]
  refine List.mergeSort_of_pairwise (List.pairwise_of_forall_mem_list fun r hr s hs => ?_)
  unfold RowOrder.precedes
  cases order.leading? with
  | none => rfl
  | some c => simp [h r hr, h s hs]

/-- **Where rows are hidden there is nothing to order**: all that is left have the other result. -/
theorem ordered_visible_of_hidden (h : ∀ row ∈ rows, row.result?.isSome = true)
    (hhide : hide ≠ .nothing) (order : RowOrder) :
    ordered order (visible hide rows) = visible hide rows := by
  obtain ⟨b, hb⟩ : ∃ b, hide.hidden? = some b := by
    cases hide with
    | nothing => exact absurd rfl hhide
    | whereTrue => exact ⟨true, rfl⟩
    | whereFalse => exact ⟨false, rfl⟩
  refine ordered_of_forall_result (b := !b) (fun row hrow => ?_) order
  rw [visible_eq_filter h, hb, List.mem_filter] at hrow
  obtain ⟨c, hc⟩ := Option.isSome_iff_exists.mp (h row hrow.1)
  have hcb : c ≠ b := by simpa [hc] using hrow.2
  rw [hc, Bool.eq_not_of_ne hcb]

/-! ## All tables of some columns -/

/-- **The table of all assignments** of the variables of its columns, in counting order: the row
with the number `k` gives the variable at the place `j` the bit `n - 1 - j` of `k`, and each column
the value that it evaluates to. -/
structure IsCounted (columns : List Formula) (t : TruthTable) : Prop where
  names_eq : t.names = Formula.names columns
  columns_eq : t.columns = columns
  length_rows : t.rows.length = 2 ^ (Formula.names columns).length
  assignment_eq : ∀ (k : Nat) (row : Row), t.rows[k]? = some row → row.assignment =
    (Formula.names columns).mapIdx fun j x =>
      (x, k.testBit ((Formula.names columns).length - 1 - j))
  values_eq : ∀ row ∈ t.rows,
    columns.mapM (·.evaluate (Assignment.ofList row.assignment)) = .ok row.values
  once : ∀ a : List (String × Bool), a.map Prod.fst = Formula.names columns →
    t.rows.countP (·.assignment = a) = 1

/-- The same variables and columns with other rows. -/
def withRows (t : TruthTable) (rows : List Row) : TruthTable := ⟨t.names, t.columns, rows⟩

/-- All rows of the columns in counting order. -/
def counted (columns : List Formula) : TruthTable :=
  ⟨Formula.names columns, columns, (assignments (Formula.names columns)).map (Row.under columns)⟩

theorem isCounted_counted (columns : List Formula) : IsCounted columns (counted columns) where
  names_eq := rfl
  columns_eq := rfl
  length_rows := by simp [counted, assignments_eq_map_range]
  assignment_eq k row h := by
    rw [counted, assignments_eq_map_range, List.map_map, List.getElem?_map,
      Option.map_eq_some_iff] at h
    obtain ⟨i, hi, rfl⟩ := h
    obtain ⟨hlt, rfl⟩ := List.getElem?_eq_some_iff.mp hi
    rw [List.getElem_range]
    rfl
  values_eq row h := by
    obtain ⟨a, ha, rfl⟩ := List.mem_map.mp h
    refine mapM_evaluate fun c hc x hx => ?_
    change x ∈ a.map Prod.fst
    rw [mem_assignments_iff.mp ha]
    exact Formula.mem_names_iff_exists.mpr ⟨c, hc, hx⟩
  once a ha := by
    have hcount := (nodup_assignments (Formula.names columns)).count (a := a)
    rw [if_pos (mem_assignments_iff.mpr ha)] at hcount
    rw [counted, List.countP_map, ← hcount, List.count]
    refine List.countP_congr fun b _ => ?_
    rw [Function.comp_apply, decide_eq_true_iff, beq_iff_eq]
    rfl

/-- **Every table of the columns** has the rows of the counted one, hidden and ordered. -/
theorem build_eq_counted (columns : List Formula) (hide : Hiding) (order : RowOrder) :
    build columns hide order =
      .ok ((counted columns).withRows (ordered order (visible hide (counted columns).rows))) :=
  build_eq columns hide order

theorem isSome_result?_counted (hne : columns ≠ []) :
    ∀ row ∈ (counted columns).rows, row.result?.isSome = true := by
  intro row hrow
  obtain ⟨a, -, rfl⟩ := List.mem_map.mp hrow
  exact isSome_result?_under hne a

/-- The rows whose result is not the one value are those whose result is the other. -/
theorem filter_result?_ne (h : ∀ row ∈ rows, row.result?.isSome = true) {b c : Bool} (hbc : b ≠ c) :
    (rows.filter fun row => row.result? ≠ some b) = rows.filter (·.result? = some c) := by
  refine List.filter_congr fun row hrow => ?_
  obtain ⟨d, hd⟩ := Option.isSome_iff_exists.mp (h row hrow)
  rw [hd, Bool.eq_not_of_ne hbc]
  cases c <;> cases d <;> rfl

/-- **A table enumerates every assignment once, in counting order; hiding and ordering only select
and stably rearrange rows.** For every non-empty list of columns a table can be built, whatever is
hidden and in whatever order, and with `full` for the one without hiding and in counting order

* `full` has `2 ^ n` rows for `n` variables, in counting order, with the value of each column;
* hiding leaves out the rows with the hidden result and keeps the others, as they are and in order;
* ordering takes the rows with the leading result in counting order, and the others in counting
  order after them: it is a stable sort;
* it does not matter whether rows are hidden or ordered first, and if some are hidden the order does
  not matter at all;
* each row of `full` is in exactly one of the two tables that hide a result. -/
theorem build_enumerates (columns : List Formula) (hne : columns ≠ []) :
    ∃ full, build columns .nothing .counting = .ok full ∧ IsCounted columns full ∧
      (∀ hide, build columns hide .counting =
        .ok (full.withRows (full.rows.filter fun row => row.result? ≠ hide.hidden?))) ∧
      build columns .nothing .trueFirst = .ok (full.withRows
        (full.rows.filter (·.result? = some true) ++ full.rows.filter (·.result? = some false))) ∧
      build columns .nothing .falseFirst = .ok (full.withRows
        (full.rows.filter (·.result? = some false) ++ full.rows.filter (·.result? = some true))) ∧
      (∀ hide order, ∃ hidden sorted t, build columns hide .counting = .ok hidden ∧
        build columns .nothing order = .ok sorted ∧ build columns hide order = .ok t ∧
        sorted = full.withRows (full.rows.mergeSort order.precedes) ∧
        t = full.withRows (hidden.rows.mergeSort order.precedes) ∧
        t = full.withRows (sorted.rows.filter fun row => row.result? ≠ hide.hidden?)) ∧
      (∀ hide order, hide ≠ .nothing →
        build columns hide order = build columns hide .counting) ∧
      ∃ t u, build columns .whereTrue .counting = .ok t ∧
        build columns .whereFalse .counting = .ok u ∧
        (t.rows ++ u.rows).Perm full.rows ∧ ∀ row ∈ t.rows, row ∉ u.rows := by
  have hresult := isSome_result?_counted hne
  have hordered (order : RowOrder) : ∀ row ∈ ordered order (counted columns).rows,
      row.result?.isSome = true := fun row hrow =>
    hresult row ((ordered_perm order _).mem_iff.mp hrow)
  refine ⟨counted columns, build_eq_counted columns _ _, isCounted_counted columns, fun hide => ?_,
    ?_, ?_, fun hide order => ?_, fun hide order hhide => ?_, ?_⟩
  · rw [build_eq_counted, visible_eq_filter hresult]
    rfl
  · rw [build_eq_counted, ← filter_result?_ne hresult (b := true) (c := false) (by decide)]
    rfl
  · rw [build_eq_counted, ← filter_result?_ne hresult (b := false) (c := true) (by decide)]
    rfl
  · refine ⟨_, _, _, build_eq_counted columns hide .counting, build_eq_counted columns .nothing order,
      build_eq_counted columns hide order, ?_, ?_, ?_⟩
    · rw [← ordered_eq_mergeSort]
      rfl
    · rw [← ordered_eq_mergeSort]
      rfl
    · rw [ordered_visible, visible_eq_filter (hordered order)]
      rfl
  · rw [build_eq_counted, build_eq_counted, ordered_visible_of_hidden hresult hhide]
    rfl
  · refine ⟨_, _, build_eq_counted columns .whereTrue .counting,
      build_eq_counted columns .whereFalse .counting, ?_, fun row ht hu => ?_⟩
    · have hperm := List.filter_append_perm (fun row : Row => decide (row.result? = some true))
        (counted columns).rows
      rw [← filter_result?_ne hresult (b := false) (c := true) (by decide)] at hperm
      simp only [← decide_not] at hperm
      exact List.perm_append_comm.trans hperm
    · have htrue := (List.mem_filter.mp ht).2
      have hfalse := (List.mem_filter.mp hu).2
      obtain ⟨b, hb⟩ := Option.isSome_iff_exists.mp (hresult row (List.mem_filter.mp ht).1)
      cases b <;> simp [hb] at htrue hfalse

/-- The table of `B` and `A➔B` is about `B` and `A`, in this order. Its second row, where `B` is
false and `A` is true, is the only one that is left when true results are hidden, whatever the
order. -/
theorem build_enumerates_implication :
    let columns : List Formula := [.var "B", .binary .implies (.var "A") (.var "B")]
    let row : Row := ⟨[("B", false), ("A", true)], [false, false]⟩
    columns ≠ [] ∧ ∃ full, build columns .nothing .counting = .ok full ∧
      full.matrix = [[false, true], [false, false], [true, true], [true, true]] ∧
      full.rows[1]? = some row ∧
      row.assignment = ["B", "A"].mapIdx (fun j x => (x, Nat.testBit 1 (2 - 1 - j))) ∧
      ∀ order, build columns .whereTrue order = .ok (full.withRows [row]) := by
  intro columns row
  have hne : columns ≠ [] := by simp [columns]
  obtain ⟨full, hfull, hcounted, hhidden, -, -, -, horder, -⟩ := build_enumerates columns hne
  have hbuild : build columns .nothing .counting = .ok ⟨["B", "A"], columns,
      [⟨[("B", false), ("A", false)], [false, true]⟩, row,
        ⟨[("B", true), ("A", false)], [true, true]⟩,
        ⟨[("B", true), ("A", true)], [true, true]⟩]⟩ := by decide +kernel
  obtain rfl := Except.ok.inj (hfull.symm.trans hbuild)
  have hnames : Formula.names columns = ["B", "A"] := hcounted.names_eq.symm
  have hassignment := hcounted.assignment_eq 1 row rfl
  rw [hnames] at hassignment
  refine ⟨hne, _, hfull, rfl, rfl, hassignment, fun order => ?_⟩
  rw [horder .whereTrue order (by decide), hhidden .whereTrue]
  rfl

end TruthTable

end Propositional
