import Mathlib.Algebra.Ring.Nat
import Propositional.Proofs.Table.Rows

/-!
# Tables of one function over different variables

Two formulas with the same truth function need not mention the same variables. If those of `g` are
among those of `f`, each assignment of the variables of `f` restricts to one of the variables of
`g`, and the values agree. So the rows of the two tables belong together, whatever rows are hidden
and in whatever order they and the variables come.

* `restrict`: what an assignment says of some of its variables.
* `countP_restrict_assignments`: how many assignments have the same restriction.
* `holds_restrict`: the value of `f` is the value of `g` under the restriction.
* `countP_rows_eq_restrict`, `countP_restrict_eq_row`, `result?_eq_of_restrict`: rows of the one
  table against rows of the other.
-/

namespace Propositional.TruthTable

variable {xs ys : List String} {x : String} {a b : List (String × Bool)} {f g : Formula}
  {hide : Hiding}

/-- What an assignment says of the variables `xs`, in their order. -/
def restrict (xs : List String) (a : List (String × Bool)) : List (String × Bool) :=
  xs.filterMap fun x => (a.lookup x).map fun b => (x, b)

/-! ## Restricted assignments -/

theorem valuation_map (v : String → Bool) (hx : x ∈ xs) :
    valuation (xs.map fun x => (x, v x)) x = v x := by
  induction xs with
  | nil => cases hx
  | cons y ys ih =>
    by_cases hxy : x = y
    · rw [hxy, valuation, List.map_cons, List.lookup_cons_self]
      rfl
    · have hbeq : (x == y) = false := by simpa using hxy
      rw [← ih ((List.mem_cons.mp hx).resolve_left hxy), valuation, valuation, List.map_cons,
        List.lookup_cons, hbeq]

theorem restrict_eq_map (h : ∀ x ∈ ys, x ∈ a.map Prod.fst) :
    restrict ys a = ys.map fun x => (x, valuation a x) := by
  induction ys with
  | nil => rfl
  | cons y ys ih =>
    have htail := ih fun x hx => h x (List.mem_cons_of_mem y hx)
    rw [restrict, List.filterMap_cons, lookup_eq_valuation (h y List.mem_cons_self)]
    exact congrArg _ htail

theorem map_fst_restrict (h : ∀ x ∈ ys, x ∈ a.map Prod.fst) :
    (restrict ys a).map Prod.fst = ys := by
  rw [restrict_eq_map h, List.map_map]
  exact List.map_id ys

theorem valuation_restrict (h : ∀ x ∈ ys, x ∈ a.map Prod.fst) (hx : x ∈ ys) :
    valuation (restrict ys a) x = valuation a x := by
  rw [restrict_eq_map h, valuation_map (valuation a) hx]

/-- A restriction is the assignment of some of the variables that has the same values. -/
theorem restrict_eq_iff (hsub : ∀ x ∈ ys, x ∈ a.map Prod.fst) (hb : b.map Prod.fst = ys)
    (hys : ys.Nodup) : restrict ys a = b ↔ ∀ x ∈ ys, valuation a x = valuation b x := by
  subst hb
  conv => lhs; rw [restrict_eq_map hsub]; rhs; rw [eq_map_valuation hys]
  rw [List.map_inj_left]
  simp

/-! ## How many assignments restrict to one -/

/-- Whether an assignment gives no value other than the one that `p` asks for. -/
def agrees (p : String → Option Bool) (a : List (String × Bool)) : Bool :=
  a.all fun e => p e.1 = none || p e.1 = some e.2

/-- **Each variable for which nothing is asked doubles the number.** -/
theorem countP_agrees (p : String → Option Bool) (xs : List String) :
    (assignments xs).countP (agrees p) = 2 ^ xs.countP fun x => (p x).isNone := by
  induction xs with
  | nil => rfl
  | cons x xs ih =>
    have hcons (b : Bool) : ((assignments xs).map ((x, b) :: ·)).countP (agrees p) =
        if p x = none ∨ p x = some b then (assignments xs).countP (agrees p) else 0 := by
      rw [List.countP_map]
      split
      · rename_i h
        refine List.countP_congr fun a _ => ?_
        simp [agrees, h]
      · rename_i h
        refine List.countP_eq_zero.mpr fun a _ => ?_
        simp only [not_or] at h
        simp [agrees, h]
    rw [assignments, List.countP_append, hcons, hcons, ih, List.countP_cons]
    cases hp : p x with
    | none => simp [Nat.pow_succ, Nat.mul_two]
    | some b => cases b <;> simp

/-- **The assignments of `xs` with a given restriction**: one for each way to fill in the variables
that it leaves out. -/
theorem countP_restrict_assignments (hxs : xs.Nodup) (hys : ys.Nodup) (hsub : ∀ x ∈ ys, x ∈ xs)
    (hb : b.map Prod.fst = ys) :
    (assignments xs).countP (fun a => restrict ys a = b) = 2 ^ (xs.filter (· ∉ ys)).length := by
  let p : String → Option Bool := fun x => if x ∈ ys then some (valuation b x) else none
  have hagrees : ∀ a ∈ assignments xs, restrict ys a = b ↔ agrees p a = true := by
    intro a ha
    have hkeys := mem_assignments_iff.mp ha
    have hentries : a = xs.map fun x => (x, valuation a x) := by
      rw [← hkeys]
      exact eq_map_valuation (hkeys ▸ hxs)
    rw [restrict_eq_iff (hkeys ▸ hsub) hb hys, agrees]
    conv => rhs; rw [hentries]
    simp only [List.all_map, List.all_eq_true, Function.comp_apply, p]
    constructor
    · intro h x _
      by_cases hx : x ∈ ys
      · simp [hx, h x hx]
      · simp [hx]
    · intro h x hx
      simpa [hx, eq_comm] using h x (hsub x hx)
  rw [List.countP_congr fun a ha => by simpa using hagrees a ha, countP_agrees,
    ← List.countP_eq_length_filter]
  refine congrArg _ (List.countP_congr fun x _ => ?_)
  by_cases hx : x ∈ ys <;> simp [p, hx]

/-! ## Counting pairs twice -/

theorem sum_countP_comm {α β : Type} (p : α → β → Bool) (as : List α) (bs : List β) :
    (as.map fun a => bs.countP (p a)).sum = (bs.map fun b => as.countP (p · b)).sum := by
  induction as with
  | nil =>
    induction bs with
    | nil => rfl
    | cons b bs ih => exact ih.trans (Nat.zero_add _).symm
  | cons a as ih =>
    rw [List.map_cons, List.sum_cons, ih]
    clear ih
    induction bs with
    | nil => rfl
    | cons b bs ih =>
      simp only [List.countP_cons, List.map_cons, List.sum_cons] at ih ⊢
      omega

/-- If every entry of `as` goes with one of `bs`, and every entry of `bs` with `k` of `as`. -/
theorem length_eq_mul_of_countP {α β : Type} {p : α → β → Bool} {as : List α} {bs : List β} {k : Nat}
    (has : ∀ a ∈ as, bs.countP (p a) = 1) (hbs : ∀ b ∈ bs, as.countP (p · b) = k) :
    as.length = bs.length * k := by
  have h := sum_countP_comm p as bs
  rwa [List.map_congr_left has, List.map_congr_left hbs, List.map_const', List.map_const',
    List.sum_replicate_nat, List.sum_replicate_nat, Nat.mul_one] at h

/-! ## Rows that belong together -/

section Rows

variable (hfg : ∀ v, g.holds v = f.holds v)
  (hsub : ∀ x ∈ Formula.names [g], x ∈ Formula.names [f])

include hfg hsub

theorem holds_restrict (ha : a.map Prod.fst = Formula.names [f]) :
    g.holds (valuation (restrict (Formula.names [g]) a)) = f.holds (valuation a) := by
  rw [← hfg]
  exact Formula.holds_congr fun x hx => valuation_restrict (ha ▸ hsub) hx

theorem restrict_mem_shownAssignments (ha : a ∈ shownAssignments f hide) :
    restrict (Formula.names [g]) a ∈ shownAssignments g hide := by
  obtain ⟨hkeys, hshown⟩ := mem_shownAssignments_iff.mp ha
  rw [mem_shownAssignments_iff, holds_restrict hfg hsub hkeys]
  exact ⟨map_fst_restrict (hkeys ▸ hsub), hshown⟩

variable {hideIntermediate : Bool} {order : RowOrder} {row r : Row}

/-- **Each row of the larger table restricts to exactly one row of the smaller one.** -/
theorem countP_rows_eq_restrict (hrow : row ∈ (ofFormula f hideIntermediate hide order).rows) :
    (ofFormula g hideIntermediate hide order).rows.countP
      (fun r => restrict (Formula.names [g]) row.assignment = r.assignment) = 1 := by
  obtain ⟨a, ha, rfl⟩ := mem_rows_ofFormula_iff.mp hrow
  have hmem := restrict_mem_shownAssignments hfg hsub ha
  have hnodup : (shownAssignments g hide).Nodup := (nodup_assignments _).filter _
  have hcount := hnodup.count (a := restrict (Formula.names [g]) a)
  rw [if_pos hmem] at hcount
  refine (countP_rows_ofFormula (fun b => restrict (Formula.names [g]) a = b) g _ hide order).trans ?_
  rw [← hcount, List.count]
  exact List.countP_congr fun b _ => by rw [decide_eq_true_iff, beq_iff_eq, eq_comm]

/-- **A row has the result of the row that it restricts to.** -/
theorem result?_eq_of_restrict (hrow : row ∈ (ofFormula f hideIntermediate hide order).rows)
    (hr : r ∈ (ofFormula g hideIntermediate hide order).rows)
    (h : restrict (Formula.names [g]) row.assignment = r.assignment) :
    ∃ b, row.result? = some b ∧ r.result? = some b := by
  obtain ⟨a, ha, rfl⟩ := mem_rows_ofFormula_iff.mp hrow
  obtain ⟨b, -, rfl⟩ := mem_rows_ofFormula_iff.mp hr
  obtain ⟨hkeys, -⟩ := mem_shownAssignments_iff.mp ha
  obtain rfl : restrict (Formula.names [g]) a = b := h
  exact ⟨_, result?_under f hideIntermediate a, by
    rw [result?_under, holds_restrict hfg hsub hkeys]⟩

/-- **As many rows restrict to a row as there are ways to fill in the missing variables.** -/
theorem countP_restrict_eq_row (hr : r ∈ (ofFormula g hideIntermediate hide order).rows) :
    (ofFormula f hideIntermediate hide order).rows.countP
        (fun row => restrict (Formula.names [g]) row.assignment = r.assignment) =
      2 ^ ((Formula.names [f]).filter (· ∉ Formula.names [g])).length := by
  obtain ⟨b, hb, rfl⟩ := mem_rows_ofFormula_iff.mp hr
  obtain ⟨hkeys, hshown⟩ := mem_shownAssignments_iff.mp hb
  refine (countP_rows_ofFormula (fun a => restrict (Formula.names [g]) a = b) f _ hide order).trans ?_
  rw [← countP_restrict_assignments (Formula.nodup_names _) (Formula.nodup_names _) hsub hkeys,
    shownAssignments, List.countP_filter]
  refine List.countP_congr fun a ha => ?_
  -- an assignment that restricts to `b` has the same value, so it is not hidden
  have hvalue : restrict (Formula.names [g]) a = b → hide.shows (f.holds (valuation a)) = true := by
    rintro rfl
    rwa [← holds_restrict hfg hsub (mem_assignments_iff.mp ha)]
  simpa using hvalue

end Rows

end Propositional.TruthTable
