import Mathlib.Algebra.Ring.Nat
import Propositional.Formula.Traversal

/-!
# Walks over formulas follow their structure

A walk keeps the work that is still to do on a stack, whose top is its last entry. Each turn takes
the top off, visits it and puts its operands in its place; the one that is to come first is put
there last. This does not change what the stack amounts to, and since operands are smaller than the
formula they belong to, the walk ends.

* `Loop.Ends`: where a loop over a stack ends. `Loop.Amounts` says what the entries amount to, and
  `Loop.Amounts.ends_iff` that the loop ends with what its stack amounted to, whatever is on it.
* `downward_ends_iff`, `upward_ends_iff`, `levels_ends_iff`: the walks from the root down, from the
  leaves up, and with levels, in terms of `preOrder`, `postOrder` and `depth`. `count_ends_iff` and
  `note_ends_iff` are about the walk down that counts the nodes, or collects the names.
* `fromRoot`, `fromLeaves`, `occurrences`: the nodes and variables by recursion on the formula.
* `walks_follow_structure`: the walks compute these recursions.
-/

namespace Propositional

variable {α σ : Type}

/-! ## Lists -/

theorem load_append (weigh : α → Nat) (as bs : List α) :
    load weigh (as ++ bs) = load weigh as + load weigh bs := by
  induction as with
  | nil => exact (Nat.zero_add _).symm
  | cons a as ih => rw [List.cons_append, load, load, ih, Nat.add_assoc]

theorem load_reverse (weigh : α → Nat) (as : List α) : load weigh as.reverse = load weigh as := by
  induction as with
  | nil => rfl
  | cons a as ih =>
    rw [List.reverse_cons, load_append, ih, load, load, load, Nat.add_zero, Nat.add_comm]

theorem load_map {β : Type} (weigh : β → Nat) (f : α → β) (as : List α) :
    load weigh (as.map f) = load (fun a => weigh (f a)) as := by
  induction as with
  | nil => rfl
  | cons a as ih => rw [List.map_cons, load, load, ih]

section Distinct

variable [DecidableEq α]

theorem distinct_filter (p : α → Bool) (as : List α) :
    distinct (as.filter p) = (distinct as).filter p := by
  induction as with
  | nil => rfl
  | cons a as ih =>
    by_cases hp : p a = true
    · rw [List.filter_cons_of_pos hp, distinct, distinct, List.filter_cons_of_pos hp, ih,
        List.filter_filter, List.filter_filter]
      simp only [Bool.and_comm]
    · rw [List.filter_cons_of_neg hp, distinct, List.filter_cons_of_neg hp, ih, List.filter_filter]
      refine List.filter_congr fun b _ => ?_
      by_cases hba : b = a
      · simp [hba, hp]
      · simp [hba]

/-- Of equal entries the first one is kept. -/
theorem distinct_eq_eraseDups (as : List α) : distinct as = as.eraseDups := by
  induction hlength : as.length using Nat.strongRecOn generalizing as with
  | ind n ih =>
    cases as with
    | nil => rfl
    | cons a as =>
      have hshorter : (as.filter (· ≠ a)).length < n := by
        rw [← hlength, List.length_cons]
        exact Nat.lt_succ_of_le (List.length_filter_le _ _)
      have hsame : as.filter (· ≠ a) = as.filter fun b => !b == a :=
        List.filter_congr fun b _ => by by_cases hba : b = a <;> simp [hba]
      rw [distinct, ← distinct_filter, ih _ hshorter _ rfl, List.eraseDups_cons, hsame]

/-- Puts an entry behind the others, unless it is among them. -/
def addNew (seen : List α) (a : α) : List α := if a ∈ seen then seen else seen ++ [a]

theorem foldl_addNew (as bs : List α) : bs.foldl addNew (distinct as) = distinct (as ++ bs) := by
  induction bs generalizing as with
  | nil => rw [List.append_nil, List.foldl_nil]
  | cons b bs ih =>
    have hstep : addNew (distinct as) b = distinct (as ++ [b]) := by
      rw [distinct_append, addNew]
      by_cases hb : b ∈ as
      · simp [hb, distinct]
      · simp [hb, distinct]
    rw [List.foldl_cons, hstep, ih, List.append_assoc, List.singleton_append]

end Distinct

/-! ## Loops over a stack -/

/-- What a loop does at the top of its stack, and what it puts there instead. -/
structure Loop (α σ : Type) where
  visit : σ → α → σ
  push : α → List α

namespace Loop

variable {loop : Loop α σ} {stack : List α} {s s' : σ} {effect : α → σ → σ} {weight : α → Nat}

/-- With this stack and from the state `s`, the loop ends in the state `s'`. -/
inductive Ends (loop : Loop α σ) : List α → σ → σ → Prop
  | empty (s : σ) : loop.Ends [] s s
  | turn {stack : List α} {a : α} {s s' : σ}
      (h : loop.Ends (stack ++ loop.push a) (loop.visit s a) s') : loop.Ends (stack ++ [a]) s s'

/-- **What an entry amounts to** is its visit, and then what the entries in its place amount to, the
last one first. These weigh less. -/
structure Amounts (loop : Loop α σ) (effect : α → σ → σ) (weight : α → Nat) : Prop where
  effect_eq : ∀ a s, effect a s = (loop.push a).foldr effect (loop.visit s a)
  load_push_lt : ∀ a, load weight (loop.push a) < weight a

namespace Amounts

/-- A turn does not change what the stack amounts to. -/
theorem foldr_turn (h : loop.Amounts effect weight) (stack : List α) (a : α) (s : σ) :
    (stack ++ [a]).foldr effect s = (stack ++ loop.push a).foldr effect (loop.visit s a) := by
  rw [List.foldr_append, List.foldr_append, List.foldr_cons, List.foldr_nil, h.effect_eq]

theorem load_turn_lt (h : loop.Amounts effect weight) (stack : List α) (a : α) :
    load weight (stack ++ loop.push a) < load weight (stack ++ [a]) := by
  rw [load_append, load_append, load, load, Nat.add_zero]
  exact Nat.add_lt_add_left (h.load_push_lt a) _

theorem ends (h : loop.Amounts effect weight) (stack : List α) (s : σ) :
    loop.Ends stack s (stack.foldr effect s) := by
  induction hload : load weight stack using Nat.strongRecOn generalizing stack s with
  | ind n ih =>
    rcases List.eq_nil_or_concat stack with rfl | ⟨rest, a, rfl⟩
    · exact .empty s
    · rw [List.concat_eq_append] at hload ⊢
      rw [h.foldr_turn]
      exact .turn (ih _ (hload ▸ h.load_turn_lt rest a) _ _ rfl)

/-- **A loop ends with what its stack amounts to**, and in no other state. -/
theorem ends_iff (h : loop.Amounts effect weight) :
    loop.Ends stack s s' ↔ s' = stack.foldr effect s := by
  constructor
  · intro hends
    induction hends with
    | empty s => rfl
    | turn _ ih => rw [ih, h.foldr_turn]
  · rintro rfl
    exact h.ends stack s

end Amounts

end Loop

namespace Formula

variable {f : Formula} {fs : List Formula}

theorem load_size_children_lt (f : Formula) : load size f.children < f.size := by
  cases f with
  | var x | const b => simp [children, load]
  | neg a => simp [children, load]
  | binary op l r =>
    simp only [children, load, size_binary]
    omega

/-! ## From the root down -/

/-- The walk from the root down, with whatever is done at a node. -/
def downward (visit : σ → Formula → σ) : Loop Formula σ where
  visit := visit
  push f := f.children.reverse

theorem downward_amounts (visit : σ → Formula → σ) :
    (downward visit).Amounts (fun f s => (preOrder [f]).foldl visit s) size where
  effect_eq f s := by
    cases f with
    | var x => rw [preOrder_var]; rfl
    | const b => rw [preOrder_const]; rfl
    | neg a => rw [preOrder_neg]; rfl
    | binary op l r => rw [preOrder_binary, List.foldl_cons, List.foldl_append]; rfl
  load_push_lt f := (load_reverse size f.children).symm ▸ load_size_children_lt f

/-- **The walk from the root down** visits the nodes in the order of `preOrder`. -/
theorem downward_ends_iff (visit : σ → Formula → σ) {s s' : σ} :
    (downward visit).Ends fs.reverse s s' ↔ s' = (preOrder fs).foldl visit s := by
  rw [(downward_amounts visit).ends_iff, List.foldr_reverse, preOrder_eq_flatMap, List.foldl_flatMap]

/-- The nodes of a formula: itself, then those of its operands, left to right. -/
def fromRoot : Formula → List Formula
  | var x => [var x]
  | const b => [const b]
  | neg a => neg a :: a.fromRoot
  | binary op l r => binary op l r :: (l.fromRoot ++ r.fromRoot)

theorem preOrder_eq_fromRoot (f : Formula) : preOrder [f] = f.fromRoot := by
  induction f with
  | var x => exact preOrder_var x
  | const b => exact preOrder_const b
  | neg a ih => rw [preOrder_neg, ih, fromRoot]
  | binary op l r ihl ihr => rw [preOrder_binary, ihl, ihr, fromRoot]

theorem preOrder_eq_flatMap_fromRoot (fs : List Formula) : preOrder fs = fs.flatMap fromRoot := by
  rw [preOrder_eq_flatMap]
  simp only [preOrder_eq_fromRoot]

/-! ## From the leaves up -/

/-- The walk from the leaves up: a formula is entered, its operands are walked, then it is left. -/
def upward : Loop Visit (List Formula) where
  visit out
    | .enter _ => out
    | .leave f => out ++ [f]
  push
    | .enter f => .leave f :: (f.children.map .enter).reverse
    | .leave _ => []

/-- The nodes that are left from a piece of work on. -/
def Visit.left : Visit → List Formula
  | enter f => f.postOrder
  | leave f => [f]

/-- A formula is on the stack twice: to be entered, and to be left. -/
def Visit.weight : Visit → Nat
  | enter f => 2 * f.size
  | leave _ => 1

theorem load_two_mul_size (fs : List Formula) :
    load (fun f => 2 * f.size) fs = 2 * load size fs := by
  induction fs with
  | nil => rfl
  | cons f fs ih => rw [load, load, ih, Nat.mul_add]

theorem upward_amounts : upward.Amounts (fun v out => out ++ v.left) Visit.weight where
  effect_eq v out := by
    cases v with
    | leave f => rfl
    | enter f =>
      cases f with
      | var _ | const _ | neg _ | binary _ _ _ => simp [upward, children, Visit.left]
  load_push_lt v := by
    cases v with
    | leave f => exact Nat.one_pos
    | enter f =>
      have hlt := load_size_children_lt f
      have hoperands : load Visit.weight (f.children.map .enter) = 2 * load size f.children :=
        (load_map Visit.weight .enter f.children).trans (load_two_mul_size f.children)
      rw [upward, load, load_reverse, hoperands, Visit.weight, Visit.weight]
      omega

/-- **The walk from the leaves up** leaves the nodes in the order of `postOrder`. -/
theorem upward_ends_iff {out : List Formula} :
    upward.Ends [.enter f] [] out ↔ out = f.postOrder := by
  rw [upward_amounts.ends_iff]
  rfl

/-- The nodes of a formula: those of its operands, left to right, then itself. -/
def fromLeaves : Formula → List Formula
  | var x => [var x]
  | const b => [const b]
  | neg a => a.fromLeaves ++ [neg a]
  | binary op l r => l.fromLeaves ++ r.fromLeaves ++ [binary op l r]

theorem postOrder_eq_fromLeaves (f : Formula) : f.postOrder = f.fromLeaves := by
  induction f with
  | var x => exact postOrder_var x
  | const b => exact postOrder_const b
  | neg a ih => rw [postOrder_neg, ih, fromLeaves]
  | binary op l r ihl ihr => rw [postOrder_binary, ihl, ihr, fromLeaves]

/-! ## Size and depth -/

theorem count_ends_iff {n : Nat} : (downward fun n _ => n + 1).Ends [f] 0 n ↔ n = f.size := by
  rw [← List.reverse_singleton, downward_ends_iff, List.foldl_add_const, Nat.zero_add, Nat.one_mul,
    size]

theorem size_eq_add_sum (f : Formula) : f.size = 1 + (f.children.map size).sum := by
  cases f with
  | var x => exact size_var x
  | const b => exact size_const b
  | neg a => simp [children, Nat.add_comm]
  | binary op l r => simp [children, Nat.add_comm]

/-- The walk that keeps the level of each entry, and finds the deepest one. -/
def levels : Loop (Formula × Nat) Nat where
  visit deepest entry := max deepest entry.2
  push entry := entry.1.children.map (·, entry.2 + 1)

theorem one_le_depth (f : Formula) : 1 ≤ f.depth := by
  cases f with
  | var x => exact Nat.le_of_eq (depth_var x).symm
  | const b => exact Nat.le_of_eq (depth_const b).symm
  | neg a => exact depth_neg a ▸ Nat.le_add_left 1 _
  | binary op l r => exact depth_binary op l r ▸ Nat.le_add_left 1 _

/-- A formula at some level has its deepest node `depth - 1` levels below. -/
theorem levels_amounts : levels.Amounts
    (fun entry deepest => max deepest (entry.2 + entry.1.depth - 1)) fun entry => entry.1.size where
  effect_eq entry deepest := by
    obtain ⟨f, level⟩ := entry
    cases f with
    | var x | const b => simp [levels, children]
    | neg a =>
      have ha := a.one_le_depth
      simp only [levels, children, List.map_cons, List.map_nil, List.foldr_cons, List.foldr_nil,
        depth_neg]
      omega
    | binary op l r =>
      have hl := l.one_le_depth
      have hr := r.one_le_depth
      simp only [levels, children, List.map_cons, List.map_nil, List.foldr_cons, List.foldr_nil,
        depth_binary]
      omega
  load_push_lt entry := (load_map _ _ entry.1.children).symm ▸ load_size_children_lt entry.1

/-- **The deepest level that the walk finds** is the depth. -/
theorem levels_ends_iff {n : Nat} : levels.Ends [(f, 1)] 0 n ↔ n = f.depth := by
  rw [levels_amounts.ends_iff, List.foldr_cons, List.foldr_nil, Nat.zero_max, Nat.add_sub_cancel_left]

theorem depth_eq_add_max (f : Formula) : f.depth = 1 + (f.children.map depth).foldr max 0 := by
  cases f with
  | var x => exact depth_var x
  | const b => exact depth_const b
  | neg a => simp [children, Nat.add_comm]
  | binary op l r => simp [children, Nat.add_comm]

/-! ## The names of the variables -/

/-- What is done at a node to collect the names. -/
def note (seen : List String) (f : Formula) : List String :=
  match f.name? with
  | some x => addNew seen x
  | none => seen

/-- **The walk from the root down collects the names.** -/
theorem note_ends_iff {seen : List String} :
    (downward note).Ends fs.reverse [] seen ↔ seen = names fs := by
  have hnames : (preOrder fs).foldl note [] = names fs := by
    rw [names, ← List.nil_append ((preOrder fs).filterMap name?), ← foldl_addNew, distinct,
      List.foldl_filterMap]
    refine congrArg (fun visit => (preOrder fs).foldl visit []) (funext fun seen => funext fun f => ?_)
    rw [note]
    cases f.name? <;> rfl
  rw [downward_ends_iff, hnames]

/-- The variables of a formula, left to right and as often as they occur. -/
def occurrences : Formula → List String
  | var x => [x]
  | const _ => []
  | neg a => a.occurrences
  | binary _ l r => l.occurrences ++ r.occurrences

theorem filterMap_fromRoot (f : Formula) : f.fromRoot.filterMap name? = f.occurrences := by
  induction f with
  | var x => rfl
  | const b => rfl
  | neg a ih => exact ih
  | binary op l r ihl ihr =>
    rw [fromRoot, List.filterMap_cons_none rfl, List.filterMap_append, ihl, ihr, occurrences]

theorem names_eq_eraseDups (fs : List Formula) : names fs = (fs.flatMap occurrences).eraseDups := by
  rw [names, preOrder_eq_flatMap_fromRoot, List.filterMap_flatMap, distinct_eq_eraseDups]
  simp only [filterMap_fromRoot]

/-! ## The walks -/

/-- **The walks over formulas compute recursions on their structure.** Each of them ends, and
* the walk from the root down visits every formula before its operands, left to right, and one tree
  after the other, whatever is done at a node;
* the walk from the leaves up gives the nodes of the left operand, those of the right one, then the
  node;
* the size is 1 more than the sizes of the operands, the depth 1 more than the largest of their
  depths;
* the names are the variables from left to right, tree after tree, without the later repetitions. -/
theorem walks_follow_structure (fs : List Formula) :
    ((∀ (σ : Type) (visit : σ → Formula → σ) (s s' : σ),
        (downward visit).Ends fs.reverse s s' ↔ s' = (fs.flatMap fromRoot).foldl visit s) ∧
      preOrder fs = fs.flatMap fromRoot) ∧
    (∀ f : Formula, (∀ out, upward.Ends [.enter f] [] out ↔ out = f.fromLeaves) ∧
      f.postOrder = f.fromLeaves) ∧
    (∀ f : Formula, (∀ n, (downward fun n _ => n + 1).Ends [f] 0 n ↔ n = f.size) ∧
      f.size = 1 + (f.children.map size).sum) ∧
    (∀ f : Formula, (∀ n, levels.Ends [(f, 1)] 0 n ↔ n = f.depth) ∧
      f.depth = 1 + (f.children.map depth).foldr max 0) ∧
    (∀ seen, (downward note).Ends fs.reverse [] seen ↔ seen = names fs) ∧
      names fs = (fs.flatMap occurrences).eraseDups := by
  refine ⟨⟨fun σ visit s s' => ?_, preOrder_eq_flatMap_fromRoot fs⟩, fun f => ⟨fun out => ?_,
    f.postOrder_eq_fromLeaves⟩, fun f => ⟨fun n => count_ends_iff, f.size_eq_add_sum⟩,
    fun f => ⟨fun n => levels_ends_iff, f.depth_eq_add_max⟩, fun seen => note_ends_iff,
    names_eq_eraseDups fs⟩
  · rw [downward_ends_iff, preOrder_eq_flatMap_fromRoot]
  · rw [upward_ends_iff, postOrder_eq_fromLeaves]

end Formula

end Propositional
