import Mathlib.Data.List.Basic
import Propositional.Proofs.Formula.Columns
import Propositional.Proofs.Formula.Context

/-!
# The columns take a formula apart from the bottom up

The walk that leaves each node after its operands lists every part of a formula, and a part as often
as it occurs. The columns keep the first of equal parts, leave out the leaves, and have the
variables in front. None of this puts a part before one of its operands.

* `mem_postOrder_iff`: the walk lists the parts of the formula, and nothing else.
* `BottomUp`: each entry of a list comes after its operands. `BottomUp.filter` and
  `BottomUp.distinct` say what it takes to drop entries.
* `mem_columns_iff`, `bottomUp_columns`: what the columns are, and that they are in this order.
-/

namespace Propositional

/-- The first occurrences of the entries are in the order of the list. -/
theorem exists_split_of_distinct {α : Type} [DecidableEq α] {as before after : List α} {a : α}
    (h : distinct as = before ++ a :: after) :
    ∃ rest later, as = rest ++ a :: later ∧ before = distinct rest := by
  have hmem : a ∈ as := mem_distinct.mp (by simp [h])
  obtain ⟨rest, later, rfl, hrest⟩ := List.eq_append_cons_of_mem hmem
  have hnodup : (before ++ a :: after).Nodup := h ▸ nodup_distinct _
  obtain ⟨-, htail, hapart⟩ := List.nodup_append.mp hnodup
  have hbefore : a ∉ before := fun ha => hapart a ha a List.mem_cons_self rfl
  rw [distinct_append, distinct, List.filter_cons_of_pos (by simpa using hrest)] at h
  have hsplit := (List.append_cons_inj_of_notMem hbefore (List.nodup_cons.mp htail).1).mp h.symm
  exact ⟨rest, later, rfl, hsplit.1⟩

namespace Formula

variable {f g a : Formula} {fs gs : List Formula} {p : Formula → Bool}

/-! ## The parts of a formula -/

/-- **The walk from the bottom up lists the parts of the formula.** -/
theorem mem_postOrder_iff : g ∈ f.postOrder ↔ ∃ c : Context, c.fill g = f := by
  constructor
  · intro hg
    induction f with
    | var x =>
      rw [postOrder_var, List.mem_singleton] at hg
      exact ⟨.hole, hg⟩
    | const b =>
      rw [postOrder_const, List.mem_singleton] at hg
      exact ⟨.hole, hg⟩
    | neg a ih =>
      rw [postOrder_neg, List.mem_append, List.mem_singleton] at hg
      rcases hg with hg | rfl
      · obtain ⟨c, rfl⟩ := ih hg
        exact ⟨.neg c, rfl⟩
      · exact ⟨.hole, rfl⟩
    | binary op l r ihl ihr =>
      rw [postOrder_binary, List.mem_append, List.mem_append, List.mem_singleton] at hg
      rcases hg with (hg | hg) | rfl
      · obtain ⟨c, rfl⟩ := ihl hg
        exact ⟨.left op c r, rfl⟩
      · obtain ⟨c, rfl⟩ := ihr hg
        exact ⟨.right op l c, rfl⟩
      · exact ⟨.hole, rfl⟩
  · rintro ⟨c, rfl⟩
    induction c with
    | hole => cases g <;> simp [Context.fill]
    | neg c ih => simp [Context.fill, ih]
    | left op c r ih => simp [Context.fill, ih]
    | right op l c ih => simp [Context.fill, ih]

theorem mem_postOrder_self (f : Formula) : f ∈ f.postOrder := mem_postOrder_iff.mpr ⟨.hole, rfl⟩

theorem size_le_of_mem_postOrder (h : g ∈ f.postOrder) : g.size ≤ f.size := by
  obtain ⟨c, rfl⟩ := mem_postOrder_iff.mp h
  induction c with
  | hole => exact Nat.le_refl _
  | neg c ih | left op c r ih | right op l c ih =>
    have hc := ih (mem_postOrder_iff.mpr ⟨c, rfl⟩)
    simp only [Context.fill, size_neg, size_binary]
    omega

theorem size_lt_of_mem_children (h : a ∈ g.children) : a.size < g.size := by
  cases g with
  | var x | const b => cases h
  | neg b =>
    obtain rfl := List.mem_singleton.mp h
    simp
  | binary op l r =>
    rw [children, List.mem_cons, List.mem_singleton] at h
    rcases h with rfl | rfl
    · rw [size_binary]
      omega
    · rw [size_binary]
      omega

/-! ## Operands first -/

/-- **Each entry comes after its operands**, but for the constants among them. -/
def BottomUp (fs : List Formula) : Prop :=
  ∀ before g after, fs = before ++ g :: after →
    ∀ a ∈ g.children, (∀ b, a ≠ const b) → a ∈ before

namespace BottomUp

/-- Operands of entries are entries, constants apart. -/
theorem mem_of_mem_children (h : BottomUp fs) (hg : g ∈ fs) {a : Formula} (ha : a ∈ g.children)
    (hconst : ∀ b, a ≠ const b) : a ∈ fs := by
  obtain ⟨before, after, rfl⟩ := List.append_of_mem hg
  exact List.mem_append_left _ (h before g after rfl a ha hconst)

theorem of_children_eq_nil (h : ∀ g ∈ fs, g.children = []) : BottomUp fs := by
  rintro before g after rfl a ha
  rw [h g (by simp)] at ha
  cases ha

/-- More entries can follow, if each finds its operands before it. -/
theorem append_of (h : BottomUp fs) (hgs : ∀ before g after, gs = before ++ g :: after →
    ∀ a ∈ g.children, (∀ b, a ≠ const b) → a ∈ fs ++ before) : BottomUp (fs ++ gs) := by
  intro before g after hsplit a ha hconst
  rcases List.append_eq_append_iff.mp hsplit with ⟨mid, rfl, hmid⟩ | ⟨mid, hmid, hrest⟩
  · exact hgs mid g after hmid a ha hconst
  · cases mid with
    | nil =>
      rw [List.append_nil] at hmid
      simpa [hmid] using hgs [] g after hrest.symm a ha hconst
    | cons g' mid =>
      obtain ⟨rfl, -⟩ := List.cons.inj hrest
      exact h before g mid hmid a ha hconst

theorem append (h : BottomUp fs) (hgs : BottomUp gs) : BottomUp (fs ++ gs) :=
  h.append_of fun before g after hsplit a ha hconst =>
    List.mem_append_right _ (hgs before g after hsplit a ha hconst)

theorem concat (h : BottomUp fs) (hg : ∀ a ∈ g.children, (∀ b, a ≠ const b) → a ∈ fs) :
    BottomUp (fs ++ [g]) := by
  refine h.append_of fun before g' after hsplit a ha hconst => ?_
  rcases List.singleton_eq_append_iff.mp hsplit with ⟨rfl, hg'⟩ | ⟨-, hg'⟩
  · obtain ⟨rfl, -⟩ := List.cons.inj hg'
    rw [List.append_nil]
    exact hg a ha hconst
  · cases hg'

/-- Entries can be dropped, if those that are operands of others stand in front. -/
theorem filter (hfs : BottomUp fs) (h : BottomUp gs) (hp : ∀ g ∈ gs, p g = true →
    ∀ a ∈ g.children, (∀ b, a ≠ const b) → p a = false → a ∈ fs) : BottomUp (fs ++ gs.filter p) := by
  refine hfs.append_of fun before g after hsplit a ha hconst => ?_
  obtain ⟨first, rest, rfl, rfl, hrest⟩ := List.filter_eq_append_iff.mp hsplit
  obtain ⟨skipped, last, rfl, hskipped, hg, -⟩ := List.filter_eq_cons_iff.mp hrest
  have hmem : a ∈ first ++ skipped :=
    h (first ++ skipped) g last (by simp) a ha hconst
  cases hpa : p a with
  | false => exact List.mem_append_left _ (hp g (by simp) hg a ha hconst hpa)
  | true =>
    rcases List.mem_append.mp hmem with hfirst | hskip
    · exact List.mem_append_right _ (List.mem_filter.mpr ⟨hfirst, hpa⟩)
    · exact absurd hpa (hskipped a hskip)

/-- Only the first of equal entries is needed. -/
protected theorem distinct (h : BottomUp fs) : BottomUp (distinct fs) := by
  intro before g after hsplit a ha hconst
  obtain ⟨rest, later, rfl, rfl⟩ := exists_split_of_distinct hsplit
  exact mem_distinct.mpr (h rest g later rfl a ha hconst)

end BottomUp

theorem bottomUp_postOrder (f : Formula) : BottomUp f.postOrder := by
  induction f with
  | var x => exact .of_children_eq_nil (by simp [children])
  | const b => exact .of_children_eq_nil (by simp [children])
  | neg a ih =>
    rw [postOrder_neg]
    refine ih.concat fun b hb _ => ?_
    rw [List.mem_singleton.mp hb]
    exact a.mem_postOrder_self
  | binary op l r ihl ihr =>
    rw [postOrder_binary]
    refine (ihl.append ihr).concat fun b hb _ => ?_
    rw [children, List.mem_cons, List.mem_singleton] at hb
    rcases hb with rfl | rfl
    · exact List.mem_append_left _ b.mem_postOrder_self
    · exact List.mem_append_right _ b.mem_postOrder_self

/-! ## The columns -/

/-- **The columns are** the variables, the parts with operands, and the formula itself. -/
theorem mem_columns_iff :
    g ∈ f.columns false ↔
      (∃ x ∈ names [f], g = var x) ∨ (g.isCompound = true ∧ ∃ c : Context, c.fill g = f) ∨
        g = f := by
  rw [columns_eq_distinct, mem_distinct, List.mem_append, List.mem_append, List.mem_map,
    List.mem_singleton, innerParts, if_neg Bool.false_ne_true, List.mem_filter, mem_postOrder_iff]
  by_cases hgf : g = f
  · simp [hgf]
  · simp only [hgf, or_false, Bool.and_eq_true, decide_eq_true_eq, ne_eq, not_false_eq_true,
      true_and, eq_comm (a := g), and_comm]

/-- The variables stand in front. -/
theorem map_var_names_prefix_columns (f : Formula) (hideIntermediate : Bool) :
    (names [f]).map var <+: f.columns hideIntermediate := by
  cases hf : f.name? with
  | none =>
    rw [columns_eq hf]
    exact List.prefix_append _ _
  | some x =>
    cases f with
    | var y =>
      rw [columns_var]
      simp [names, name?, distinct]
    | _ => cases hf

/-- **The columns are listed from the bottom up.** -/
theorem bottomUp_columns (f : Formula) : BottomUp (f.columns false) := by
  have hvars : BottomUp ((names [f]).map var) := by
    refine .of_children_eq_nil fun g hg => ?_
    obtain ⟨x, -, rfl⟩ := List.mem_map.mp hg
    rfl
  -- an operand with no column of its own is a variable: the formula is no operand of its parts
  have hleft (g : Formula) (hg : g ∈ f.postOrder) (a : Formula) (ha : a ∈ g.children)
      (hconst : ∀ b, a ≠ const b) :
      a ∈ (names [f]).map var ∨ (a ∈ f.postOrder ∧ a.isCompound = true ∧ a ≠ f) := by
    have hmem : a ∈ f.postOrder := f.bottomUp_postOrder.mem_of_mem_children hg ha hconst
    cases a with
    | var x => exact Or.inl (List.mem_map.mpr ⟨x, mem_names_of_mem_postOrder hmem (by simp), rfl⟩)
    | const b => exact absurd rfl (hconst b)
    | neg _ | binary _ _ _ =>
      refine Or.inr ⟨hmem, rfl, ?_⟩
      rintro rfl
      have hlt := size_lt_of_mem_children ha
      have hle := size_le_of_mem_postOrder hg
      omega
  rw [columns_eq_distinct, ← List.append_assoc, innerParts, if_neg Bool.false_ne_true]
  refine BottomUp.distinct (BottomUp.concat (hvars.filter f.bottomUp_postOrder ?_) ?_)
  · intro g hg _ a ha hconst hpa
    rcases hleft g hg a ha hconst with hvar | ⟨-, hcompound, hne⟩
    · exact hvar
    · simp [hcompound, hne] at hpa
  · intro a ha hconst
    rcases hleft f f.mem_postOrder_self a ha hconst with hvar | ⟨hmem, hcompound, hne⟩
    · exact List.mem_append_left _ hvar
    · exact List.mem_append_right _ (List.mem_filter.mpr ⟨hmem, by simp [hcompound, hne]⟩)

end Formula

end Propositional
