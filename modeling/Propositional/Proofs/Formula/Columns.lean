import Propositional.Formula.Traversal

/-!
# The columns of a formula stand in a fixed order

* `columns_eq`: the variables come first, then the inner parts, then the formula; for a variable it
  is the variable alone (`columns_var`).
* `getLast?_columns`: the formula is the last of its columns.
* `names_columns`: the variables of the columns are those of the formula, in the same order.
-/

namespace Propositional.Formula

variable {f g : Formula} {x : String} {hideIntermediate : Bool}

/-- The parts of a formula that get a column beside those of the variables and its own. -/
def innerParts (f : Formula) (hideIntermediate : Bool) : List Formula :=
  if hideIntermediate then [] else f.postOrder.filter fun g => g.isCompound && g ≠ f

theorem mem_innerParts (h : g ∈ f.innerParts hideIntermediate) :
    g ∈ f.postOrder ∧ g.isCompound = true ∧ g ≠ f := by
  unfold innerParts at h
  split at h
  · cases h
  · simpa using h

theorem columns_eq_distinct (f : Formula) (hideIntermediate : Bool) :
    f.columns hideIntermediate =
      distinct ((names [f]).map var ++ (f.innerParts hideIntermediate ++ [f])) := by
  rw [← List.append_assoc]
  rfl

theorem distinct_map_var_names (fs : List Formula) :
    distinct ((names fs).map var) = (names fs).map var := by
  rw [distinct_map fun _ _ h => var.inj h, distinct_of_nodup (nodup_names fs)]

theorem columns_var (x : String) (hideIntermediate : Bool) :
    (var x).columns hideIntermediate = [var x] := by
  have hparts : (var x).innerParts hideIntermediate = [] := by
    cases hideIntermediate <;> simp [innerParts, isCompound]
  rw [columns_eq_distinct, hparts]
  simp [names, name?, distinct]

/-- **The variables come first, then the inner parts, then the formula**, if it is no variable. -/
theorem columns_eq (hf : f.name? = none) (hideIntermediate : Bool) :
    f.columns hideIntermediate =
      (names [f]).map var ++ (distinct (f.innerParts hideIntermediate) ++ [f]) := by
  have hlast : distinct (f.innerParts hideIntermediate ++ [f]) =
      distinct (f.innerParts hideIntermediate) ++ [f] := by
    have hnot : f ∉ f.innerParts hideIntermediate := fun h => (mem_innerParts h).2.2 rfl
    rw [distinct_append]
    simp [distinct, hnot]
  rw [columns_eq_distinct, distinct_append, distinct_map_var_names, hlast]
  -- none of the other columns is a variable, so nothing is dropped behind the variables
  refine congrArg _ (List.filter_eq_self.mpr fun g hg => decide_eq_true fun hvar => ?_)
  obtain ⟨x, -, rfl⟩ := List.mem_map.mp hvar
  rcases List.mem_append.mp hg with hg | hg
  · cases (mem_innerParts (mem_distinct.mp hg)).2.1
  · rw [← List.mem_singleton.mp hg] at hf
    cases hf

/-- **The formula is the last of its columns.** -/
theorem getLast?_columns (f : Formula) (hideIntermediate : Bool) :
    (f.columns hideIntermediate).getLast? = some f := by
  cases hf : f.name? with
  | none => rw [columns_eq hf, ← List.append_assoc, List.getLast?_concat]
  | some x =>
    cases f with
    | var y => rw [columns_var]; rfl
    | _ => cases hf

/-! ## The variables of the columns -/

/-- A part of a formula has no other variables. -/
theorem mem_names_of_mem_postOrder (hg : g ∈ f.postOrder) (hx : x ∈ names [g]) : x ∈ names [f] := by
  induction f with
  | var y =>
    rw [postOrder_var, List.mem_singleton] at hg
    exact hg ▸ hx
  | const b =>
    rw [postOrder_const, List.mem_singleton] at hg
    exact hg ▸ hx
  | neg a ih =>
    rw [postOrder_neg, List.mem_append, List.mem_singleton] at hg
    rcases hg with hg | rfl
    · exact mem_names_neg.mpr (ih hg)
    · exact hx
  | binary op l r ihl ihr =>
    rw [postOrder_binary, List.mem_append, List.mem_append, List.mem_singleton] at hg
    rcases hg with (hg | hg) | rfl
    · exact mem_names_binary.mpr (Or.inl (ihl hg))
    · exact mem_names_binary.mpr (Or.inr (ihr hg))
    · exact hx

theorem names_map_var_append (xs : List String) (fs : List Formula) :
    names (xs.map var ++ fs) = distinct (xs ++ (preOrder fs).filterMap name?) := by
  have hvars : (preOrder (xs.map var)).filterMap name? = xs := by
    rw [preOrder_eq_flatMap]
    induction xs with
    | nil => rfl
    | cons x xs ih => simpa [name?] using ih
  rw [names, preOrder_append, List.filterMap_append, hvars]

/-- **The columns have the variables of the formula, in the same order.** -/
theorem names_columns (f : Formula) (hideIntermediate : Bool) :
    names (f.columns hideIntermediate) = names [f] := by
  cases hf : f.name? with
  | some x =>
    cases f with
    | var y => rw [columns_var]
    | _ => cases hf
  | none =>
    rw [columns_eq hf, names_map_var_append, distinct_append]
    have hrest : (distinct ((preOrder (distinct (f.innerParts hideIntermediate) ++ [f])).filterMap
        name?)).filter (· ∉ names [f]) = [] := by
      refine List.filter_eq_nil_iff.mpr fun x hx => ?_
      obtain ⟨g, hg, hxg⟩ := mem_names_iff_exists.mp hx
      have hxf : x ∈ names [f] := by
        rcases List.mem_append.mp hg with hg | hg
        · exact mem_names_of_mem_postOrder (mem_innerParts (mem_distinct.mp hg)).1 hxg
        · exact List.mem_singleton.mp hg ▸ hxg
      simpa using hxf
    rw [distinct_of_nodup (nodup_names [f]), hrest, List.append_nil]

end Propositional.Formula
