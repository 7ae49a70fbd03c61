import Propositional.Formula.Traversal

/-!
# Counting the nodes of a formula by kind

Leaves, operators and implications are counted over all nodes of a formula, wherever they stand.

* `names_eq_distinct_leaves`: the variables of a formula, read off its leaves.
* `leafCount_add_operatorCount`: every node is a leaf or an operator.
* `implicationCount_lt_leafCount`: a connective with two operands has a leaf more than it has
  connectives, so there are fewer implications than leaves.
* `depth_le_operatorCount`: every operator adds at most one level.
* `weight`: what a rewriting step makes smaller; `weight_le` bounds it by leaves and operators.
-/

namespace Propositional.Formula

variable (f : Formula)

/-- The variables and constants, left to right and as often as they occur. -/
def leaves : List Formula := (preOrder [f]).filter fun g => !g.isCompound

/-- The occurrences of variables and constants. -/
def leafCount : Nat := f.leaves.length

/-- The occurrences of connectives, negation included. -/
def operatorCount : Nat := (preOrder [f]).countP isCompound

/-- The formula is an implication at its root. -/
def isImplication : Formula → Bool
  | binary .implies _ _ => true
  | _ => false

/-- The occurrences of `➔`. -/
def implicationCount : Nat := (preOrder [f]).countP isImplication

section Recursion

variable (op : Connective) (a l r : Formula) (x : String) (b : Bool)

@[simp] theorem leaves_var : (var x).leaves = [var x] := by simp [leaves, isCompound]

@[simp] theorem leaves_const : (const b).leaves = [const b] := by simp [leaves, isCompound]

@[simp] theorem leaves_neg : (neg a).leaves = a.leaves := by simp [leaves, isCompound]

@[simp] theorem leaves_binary : (binary op l r).leaves = l.leaves ++ r.leaves := by
  simp [leaves, isCompound]

@[simp] theorem leafCount_var : (var x).leafCount = 1 := by simp [leafCount]

@[simp] theorem leafCount_const : (const b).leafCount = 1 := by simp [leafCount]

@[simp] theorem leafCount_neg : (neg a).leafCount = a.leafCount := by simp [leafCount]

@[simp] theorem leafCount_binary : (binary op l r).leafCount = l.leafCount + r.leafCount := by
  simp [leafCount]

@[simp] theorem operatorCount_var : (var x).operatorCount = 0 := by simp [operatorCount, isCompound]

@[simp] theorem operatorCount_const : (const b).operatorCount = 0 := by
  simp [operatorCount, isCompound]

@[simp] theorem operatorCount_neg : (neg a).operatorCount = a.operatorCount + 1 := by
  simp [operatorCount, List.countP_cons, isCompound]

@[simp] theorem operatorCount_binary :
    (binary op l r).operatorCount = l.operatorCount + r.operatorCount + 1 := by
  simp [operatorCount, List.countP_cons, isCompound]

@[simp] theorem implicationCount_var : (var x).implicationCount = 0 := by
  simp [implicationCount, isImplication]

@[simp] theorem implicationCount_const : (const b).implicationCount = 0 := by
  simp [implicationCount, isImplication]

@[simp] theorem implicationCount_neg : (neg a).implicationCount = a.implicationCount := by
  simp [implicationCount, isImplication]

@[simp] theorem implicationCount_implies :
    (binary .implies l r).implicationCount = l.implicationCount + r.implicationCount + 1 := by
  simp [implicationCount, List.countP_cons, isImplication]

theorem implicationCount_binary (h : op ≠ .implies) :
    (binary op l r).implicationCount = l.implicationCount + r.implicationCount := by
  cases op with
  | implies => exact absurd rfl h
  | _ => simp [implicationCount, isImplication]

theorem implicationCount_add_le :
    l.implicationCount + r.implicationCount ≤ (binary op l r).implicationCount := by
  cases op <;> simp [implicationCount_binary]

end Recursion

/-- The names of a formula are those of its leaves. -/
theorem names_eq_distinct_leaves : names [f] = distinct (f.leaves.filterMap name?) := by
  have hleaves : f.leaves.filterMap name? = (preOrder [f]).filterMap name? := by
    induction f with
    | var x => simp
    | const b => simp
    | neg a ih => simp [ih, List.filterMap_cons, name?]
    | binary op l r ihl ihr => simp [ihl, ihr, List.filterMap_cons, name?]
  rw [names, hleaves]

/-! ## How the counts are related -/

theorem leafCount_add_operatorCount : f.leafCount + f.operatorCount = f.size := by
  induction f with
  | var x => simp
  | const b => simp
  | neg a ih =>
    rw [leafCount_neg, operatorCount_neg, size_neg]
    omega
  | binary op l r ihl ihr =>
    rw [leafCount_binary, operatorCount_binary, size_binary]
    omega

theorem one_le_leafCount : 1 ≤ f.leafCount := by
  induction f with
  | var x => simp
  | const b => simp
  | neg a ih => simpa using ih
  | binary op l r ihl ihr =>
    rw [leafCount_binary]
    omega

theorem one_le_size : 1 ≤ f.size := by
  have hleaf := f.one_le_leafCount
  have hsum := f.leafCount_add_operatorCount
  omega

theorem implicationCount_lt_leafCount : f.implicationCount < f.leafCount := by
  induction f with
  | var x => simp
  | const b => simp
  | neg a ih => simpa using ih
  | binary op l r ihl ihr =>
    have hle : (binary op l r).implicationCount ≤ l.implicationCount + r.implicationCount + 1 := by
      cases op <;> simp [implicationCount_binary]
    rw [leafCount_binary]
    omega

theorem depth_le_operatorCount : f.depth ≤ f.operatorCount + 1 := by
  induction f with
  | var x => simp
  | const b => simp
  | neg a ih =>
    rw [depth_neg, operatorCount_neg]
    omega
  | binary op l r ihl ihr =>
    rw [depth_binary, operatorCount_binary]
    omega

/-! ## The weight of a formula -/

/-- The number of nodes, with two more for each implication: one for the negation that takes its
place, and one so that even then something is lost. -/
def weight : Nat := f.size + 2 * f.implicationCount

theorem one_le_weight : 1 ≤ f.weight := by
  have hsize := f.one_le_size
  unfold weight
  omega

/-- **The weight is bounded by what the check counts.** -/
theorem weight_le : f.weight + 2 ≤ 3 * f.leafCount + f.operatorCount := by
  have himp := f.implicationCount_lt_leafCount
  have hsize := f.leafCount_add_operatorCount
  unfold weight
  omega

end Propositional.Formula
