import Propositional.Formula.Basic

/-!
# Walking over formulas

`preOrder` and `postOrder` list the nodes of formulas from a stack of work that is still to do, so
their depth of recursion does not follow the depth of the tree. Size, depth, the names of the
variables and the columns of a table are read off these walks.

These are the tree-walk helpers `variables`, `size`, `depth` and `subexpressions` of the Veritas
specification (section 3), here `names`, `size`, `depth` and `columns`.

* `preOrder_cons`, `leaveOrder_cons`: a walk deals with one formula after the other
  (`preOrder_eq_flatMap`), so that `preOrder_neg`, `postOrder_neg` and their partners place a node
  before or after its operands.
* `size_neg`, `depth_neg` and their partners: both measures by recursion on the formula.
* `mem_names_neg` and its partners: which variables a formula mentions, by recursion on it;
  `forall_mem_names_neg` and `forall_mem_names_binary` for what holds of all of them.
* `mem_distinct`, `nodup_distinct`: `distinct` keeps every entry, and each once. `distinct_append`
  says what a second list adds to a first, and by `distinct_map` an injective map does not matter.
-/

namespace Propositional

/-- The list without the entries that already occurred. -/
def distinct {α : Type} [DecidableEq α] : List α → List α
  | [] => []
  | a :: as => a :: (distinct as).filter (· ≠ a)

@[simp] theorem mem_distinct {α : Type} [DecidableEq α] {a : α} {as : List α} :
    a ∈ distinct as ↔ a ∈ as := by
  induction as with
  | nil => rfl
  | cons b bs ih =>
    by_cases h : a = b
    · simp [distinct, h]
    · simp [distinct, h, ih]

theorem nodup_distinct {α : Type} [DecidableEq α] (as : List α) : (distinct as).Nodup := by
  induction as with
  | nil => exact List.nodup_nil
  | cons b bs ih =>
    refine List.nodup_cons.mpr ⟨fun h => ?_, ih.filter _⟩
    simpa using (List.mem_filter.mp h).2

theorem distinct_of_nodup {α : Type} [DecidableEq α] {as : List α} (h : as.Nodup) :
    distinct as = as := by
  induction as with
  | nil => rfl
  | cons a as ih =>
    obtain ⟨hnot, hnodup⟩ := List.nodup_cons.mp h
    rw [distinct, ih hnodup, List.filter_eq_self.mpr]
    intro b hb
    simpa using fun hba : b = a => hnot (hba ▸ hb)

/-- A second list adds the entries that did not occur in the first. -/
theorem distinct_append {α : Type} [DecidableEq α] (as bs : List α) :
    distinct (as ++ bs) = distinct as ++ (distinct bs).filter (· ∉ as) := by
  induction as with
  | nil => exact (List.filter_eq_self.mpr fun b _ => by simp).symm
  | cons a as ih =>
    rw [List.cons_append, distinct, distinct, ih, List.filter_append, List.filter_filter,
      List.cons_append]
    congr 2
    refine List.filter_congr fun b _ => ?_
    simp

/-- A map that tells all entries apart can come before or after. -/
theorem distinct_map {α β : Type} [DecidableEq α] [DecidableEq β] {f : α → β}
    (hf : Function.Injective f) (as : List α) : distinct (as.map f) = (distinct as).map f := by
  induction as with
  | nil => rfl
  | cons a as ih =>
    rw [List.map_cons, distinct, distinct, ih, List.filter_map, List.map_cons]
    congr 2
    refine List.filter_congr fun b _ => ?_
    have hiff : f b = f a ↔ b = a := ⟨fun h => hf h, fun h => h ▸ rfl⟩
    simp [hiff]

/-- What a stack of work weighs. -/
def load {α : Type} (weigh : α → Nat) : List α → Nat
  | [] => 0
  | a :: as => weigh a + load weigh as

namespace Formula

/-! ## From the root down -/

/-- All nodes of the formulas: root first, left to right, one formula after the other. -/
def preOrder : List Formula → List Formula
  | [] => []
  | var x :: rest => var x :: preOrder rest
  | const b :: rest => const b :: preOrder rest
  | neg a :: rest => neg a :: preOrder (a :: rest)
  | binary op l r :: rest => binary op l r :: preOrder (l :: r :: rest)
termination_by stack => load sizeOf stack
decreasing_by
  all_goals simp [load]
  all_goals omega

theorem preOrder_cons (f : Formula) (rest : List Formula) :
    preOrder (f :: rest) = preOrder [f] ++ preOrder rest := by
  induction f generalizing rest with
  | var x => simp [preOrder]
  | const b => simp [preOrder]
  | neg a ih => simp [preOrder, ih rest]
  | binary op l r ihl ihr =>
    rw [preOrder, preOrder, ihl (r :: rest), ihr rest, ihl [r]]
    simp

@[simp] theorem preOrder_var (x : String) : preOrder [var x] = [var x] := by simp [preOrder]

@[simp] theorem preOrder_const (b : Bool) : preOrder [const b] = [const b] := by simp [preOrder]

@[simp] theorem preOrder_neg (a : Formula) : preOrder [neg a] = neg a :: preOrder [a] := by
  rw [preOrder]

@[simp] theorem preOrder_binary (op : Connective) (l r : Formula) :
    preOrder [binary op l r] = binary op l r :: (preOrder [l] ++ preOrder [r]) := by
  rw [preOrder, preOrder_cons l]

theorem preOrder_eq_flatMap (fs : List Formula) :
    preOrder fs = fs.flatMap fun f => preOrder [f] := by
  induction fs with
  | nil => simp [preOrder]
  | cons f fs ih => rw [preOrder_cons, ih, List.flatMap_cons]

theorem preOrder_append (fs gs : List Formula) :
    preOrder (fs ++ gs) = preOrder fs ++ preOrder gs := by
  rw [preOrder_eq_flatMap, List.flatMap_append, ← preOrder_eq_flatMap, ← preOrder_eq_flatMap]

/-! ## From the leaves up -/

/-- A piece of work of the bottom-up walk: a formula to enter, or one whose operands are done. -/
inductive Visit where
  | enter (f : Formula)
  | leave (f : Formula)

/-- The nodes in the order in which they are left: operands first, left to right. -/
def leaveOrder : List Visit → List Formula
  | [] => []
  | .leave f :: rest => f :: leaveOrder rest
  | .enter (var x) :: rest => leaveOrder (.leave (var x) :: rest)
  | .enter (const b) :: rest => leaveOrder (.leave (const b) :: rest)
  | .enter (neg a) :: rest => leaveOrder (.enter a :: .leave (neg a) :: rest)
  | .enter (binary op l r) :: rest =>
    leaveOrder (.enter l :: .enter r :: .leave (binary op l r) :: rest)
termination_by stack => load (fun
  | Visit.enter f => 2 * sizeOf f
  | Visit.leave _ => 1) stack
decreasing_by
  all_goals simp [load]
  all_goals omega

/-- All nodes of the formula, operands before the node that holds them. -/
def postOrder (f : Formula) : List Formula := leaveOrder [.enter f]

theorem leaveOrder_cons (f : Formula) (rest : List Visit) :
    leaveOrder (.enter f :: rest) = postOrder f ++ leaveOrder rest := by
  unfold postOrder
  induction f generalizing rest with
  | var x => simp [leaveOrder]
  | const b => simp [leaveOrder]
  | neg a ih =>
    rw [leaveOrder, leaveOrder, ih (.leave (neg a) :: rest), ih [.leave (neg a)]]
    simp [leaveOrder]
  | binary op l r ihl ihr =>
    rw [leaveOrder, leaveOrder, ihl (.enter r :: .leave (binary op l r) :: rest),
      ihr (.leave (binary op l r) :: rest), ihl [.enter r, .leave (binary op l r)],
      ihr [.leave (binary op l r)]]
    simp [leaveOrder]

@[simp] theorem postOrder_var (x : String) : postOrder (var x) = [var x] := by
  simp [postOrder, leaveOrder]

@[simp] theorem postOrder_const (b : Bool) : postOrder (const b) = [const b] := by
  simp [postOrder, leaveOrder]

@[simp] theorem postOrder_neg (a : Formula) : postOrder (neg a) = postOrder a ++ [neg a] := by
  rw [postOrder, leaveOrder, leaveOrder_cons, leaveOrder, leaveOrder]

@[simp] theorem postOrder_binary (op : Connective) (l r : Formula) :
    postOrder (binary op l r) = postOrder l ++ postOrder r ++ [binary op l r] := by
  rw [postOrder, leaveOrder, leaveOrder_cons, leaveOrder_cons, leaveOrder, leaveOrder]
  simp

/-! ## Measures -/

/-- The number of nodes. -/
def size (f : Formula) : Nat := (preOrder [f]).length

@[simp] theorem size_var (x : String) : (var x).size = 1 := by simp [size]

@[simp] theorem size_const (b : Bool) : (const b).size = 1 := by simp [size]

@[simp] theorem size_neg (a : Formula) : (neg a).size = a.size + 1 := by simp [size]

@[simp] theorem size_binary (op : Connective) (l r : Formula) :
    (binary op l r).size = l.size + r.size + 1 := by simp [size]

/-- The largest level among those of the stack's formulas and of all nodes below them. -/
def deepest : List (Formula × Nat) → Nat
  | [] => 0
  | (var _, level) :: rest => max level (deepest rest)
  | (const _, level) :: rest => max level (deepest rest)
  | (neg a, level) :: rest => max level (deepest ((a, level + 1) :: rest))
  | (binary _ l r, level) :: rest =>
    max level (deepest ((r, level + 1) :: (l, level + 1) :: rest))
termination_by stack => load (fun entry => sizeOf entry.1) stack
decreasing_by
  all_goals simp [load]
  all_goals omega

/-- The number of nodes on the longest way from the root to a leaf. -/
def depth (f : Formula) : Nat := deepest [(f, 1)]

theorem deepest_cons (f : Formula) (level : Nat) (rest : List (Formula × Nat)) :
    deepest ((f, level + 1) :: rest) = max (level + f.depth) (deepest rest) := by
  unfold depth
  induction f generalizing level rest with
  | var x => simp [deepest]
  | const b => simp [deepest]
  | neg a ih =>
    rw [deepest, deepest, ih (level + 1) rest, ih 1 [], deepest]
    omega
  | binary op l r ihl ihr =>
    rw [deepest, deepest, ihr (level + 1) ((l, level + 1 + 1) :: rest), ihl (level + 1) rest,
      ihr 1 [(l, 1 + 1)], ihl 1 [], deepest]
    omega

@[simp] theorem depth_var (x : String) : (var x).depth = 1 := by simp [depth, deepest]

@[simp] theorem depth_const (b : Bool) : (const b).depth = 1 := by simp [depth, deepest]

@[simp] theorem depth_neg (a : Formula) : (neg a).depth = a.depth + 1 := by
  rw [depth, deepest, deepest_cons a 1, deepest]
  omega

@[simp] theorem depth_binary (op : Connective) (l r : Formula) :
    (binary op l r).depth = max l.depth r.depth + 1 := by
  rw [depth, deepest, deepest_cons r 1, deepest_cons l 1, deepest]
  omega

/-- The distinct variables of the formulas, in the order of their first appearance. -/
def names (fs : List Formula) : List String := distinct ((preOrder fs).filterMap name?)

theorem nodup_names (fs : List Formula) : (names fs).Nodup := nodup_distinct _

theorem mem_names_iff {x : String} {fs : List Formula} : x ∈ names fs ↔ var x ∈ preOrder fs := by
  rw [names, mem_distinct, List.mem_filterMap]
  constructor
  · rintro ⟨f, hf, hx⟩
    cases f with
    | var y => exact Option.some.inj hx ▸ hf
    | _ => cases hx
  · exact fun h => ⟨var x, h, rfl⟩

theorem mem_names_iff_exists {x : String} {fs : List Formula} :
    x ∈ names fs ↔ ∃ f ∈ fs, x ∈ names [f] := by
  simp only [mem_names_iff]
  rw [preOrder_eq_flatMap, List.mem_flatMap]

@[simp] theorem mem_names_var {x y : String} : x ∈ names [var y] ↔ x = y := by
  simp [mem_names_iff]

@[simp] theorem not_mem_names_const {x : String} {b : Bool} : x ∉ names [const b] := by
  simp [mem_names_iff]

@[simp] theorem mem_names_neg {x : String} {a : Formula} : x ∈ names [neg a] ↔ x ∈ names [a] := by
  simp [mem_names_iff]

@[simp] theorem mem_names_binary {x : String} {op : Connective} {l r : Formula} :
    x ∈ names [binary op l r] ↔ x ∈ names [l] ∨ x ∈ names [r] := by
  simp [mem_names_iff]

/-- What holds of all variables of a formula holds of those of its operands. -/
theorem forall_mem_names_neg {p : String → Prop} {a : Formula} :
    (∀ x ∈ names [neg a], p x) ↔ ∀ x ∈ names [a], p x := by
  simp only [mem_names_neg]

theorem forall_mem_names_binary {p : String → Prop} {op : Connective} {l r : Formula} :
    (∀ x ∈ names [binary op l r], p x) ↔ (∀ x ∈ names [l], p x) ∧ ∀ x ∈ names [r], p x := by
  simp only [mem_names_binary, or_imp, forall_and]

/-! ## Columns -/

/-- The columns under which `f` is tabulated: its variables, then its compound parts from the bottom
up, then `f` itself, each once. With `hideIntermediate` only the variables and `f`. A constant has a
column only if it is the whole formula. -/
def columns (f : Formula) (hideIntermediate : Bool) : List Formula :=
  let parts := if hideIntermediate then [] else f.postOrder.filter fun g => g.isCompound && g ≠ f
  distinct ((names [f]).map var ++ parts ++ [f])

end Formula

end Propositional
