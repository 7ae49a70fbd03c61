import Propositional.Formula.Traversal
import Propositional.Simplification

/-!
# What one step of a simplification can do

A step replaces one node of a formula by what a law makes of it. `Replaces` lists what that can be,
for all laws together and without the conditions under which they apply: enough for whatever only
looks at how a step changes the nodes.

* `Rule.replaces_of_apply`: a law does nothing else to a node.
* `Rule.applyFirst_neg`, `Rule.applyFirst_binary`: the search goes from the root down and from left
  to right.
* `Rule.applyFirst_lift`: what holds of a law at the root, and is passed on by every node to its
  parent, holds of the law at any depth. `Simplification.run_lift` takes it on to a whole run.
* `Rule.applyFirst_eq_none_iff`: the search for a node is complete, it fails only if the law applies
  at no node. `Rule.firstOf_eq_none_iff` says the same of the search for a law, and
  `Rule.exists_earlier_of_firstOf` that it finds the first one.
* `Simplification.firstOf_of_mem_steps`: every step of a run is what the search has found.
-/

namespace Propositional

namespace Rule

open Formula

variable {rule : Rule} {rules : List Rule} {f g : Formula}

/-! ## At one node -/

/-- What a law can make of a node. -/
inductive Replaces : Formula → Formula → Prop
  | implication (l r : Formula) : Replaces (binary .implies l r) (binary .or (neg l) r)
  | doubleNegation (a : Formula) : Replaces (neg (neg a)) a
  | negatedConstant (b : Bool) : Replaces (neg (const b)) (const !b)
  | deMorgan {op : Connective} (h : op ≠ .implies) (l r : Formula) :
      Replaces (neg (binary op (neg l) (neg r))) (binary op.dual l r)
  | constant {op : Connective} (h : op ≠ .implies) (l r : Formula) (b : Bool) :
      Replaces (binary op l r) (const b)
  | left {op : Connective} (h : op ≠ .implies) (l r : Formula) : Replaces (binary op l r) l
  | right {op : Connective} (h : op ≠ .implies) (l r : Formula) : Replaces (binary op l r) r

theorem replaces_of_applyNegation {a : Formula} (h : rule.applyNegation a = some g) :
    Replaces (neg a) g := by
  unfold applyNegation at h
  split at h
  case h_1 b =>
    obtain rfl := Option.some.inj h
    exact .doubleNegation b
  case h_2 b =>
    obtain rfl := Option.some.inj h
    exact .negatedConstant b
  case h_3 l r =>
    obtain rfl := Option.some.inj h
    exact @Replaces.deMorgan .and (by decide) l r
  case h_4 l r =>
    obtain rfl := Option.some.inj h
    exact @Replaces.deMorgan .or (by decide) l r
  case h_5 => cases h

theorem replaces_of_applyLattice {op : Connective} {unit : Bool} {l r : Formula}
    (hop : op ≠ .implies) (h : rule.applyLattice op unit l r = some g) :
    Replaces (binary op l r) g := by
  cases rule with
  | complement | annihilation =>
    obtain ⟨-, ⟨⟩⟩ := Option.ite_none_right_eq_some.mp h
    exact .constant hop l r _
  | idempotence =>
    obtain ⟨-, ⟨⟩⟩ := Option.ite_none_right_eq_some.mp h
    exact .left hop _ r
  | identity | absorption =>
    rw [applyLattice] at h
    split at h
    · obtain rfl := Option.some.inj h
      exact .left hop _ r
    · obtain ⟨-, ⟨⟩⟩ := Option.ite_none_right_eq_some.mp h
      exact .right hop l _
  | implicationElimination | doubleNegation | negatedConstant | deMorgan => cases h

theorem neutral?_eq_none_iff {op : Connective} : op.neutral? = none ↔ op = .implies := by
  cases op <;> decide

/-- **A law does nothing else to a node.** -/
theorem replaces_of_apply (h : rule.apply f = some g) : Replaces f g := by
  unfold apply at h
  split at h
  · exact replaces_of_applyNegation h
  · rename_i op l r
    split at h
    · rename_i unit hunit
      refine replaces_of_applyLattice (fun hop => ?_) h
      rw [neutral?_eq_none_iff.mpr hop] at hunit
      cases hunit
    · rename_i hop
      obtain ⟨-, ⟨⟩⟩ := Option.ite_none_right_eq_some.mp h
      rw [neutral?_eq_none_iff.mp hop]
      exact .implication l r
  · cases h

/-! ## At some node -/

theorem applyFirst_of_apply (h : rule.apply f = some g) : rule.applyFirst f = some g := by
  unfold applyFirst
  rw [h]

theorem applyFirst_neg (rule : Rule) (a : Formula) :
    rule.applyFirst (neg a) = (rule.apply (neg a)).or ((rule.applyFirst a).map neg) := by
  rw [applyFirst]
  cases rule.apply (neg a) <;> rfl

theorem applyFirst_binary (rule : Rule) (op : Connective) (l r : Formula) :
    rule.applyFirst (binary op l r) = (rule.apply (binary op l r)).or
      (((rule.applyFirst l).map (binary op · r)).or ((rule.applyFirst r).map (binary op l))) := by
  rw [applyFirst]
  cases rule.apply (binary op l r) with
  | some g => rfl
  | none => cases rule.applyFirst l <;> rfl

/-- **From the root to any depth**: what holds of the law at the root holds of it everywhere, if
every node passes it on from an operand. -/
theorem applyFirst_lift {R : Formula → Formula → Prop}
    (root : ∀ f g, rule.apply f = some g → R f g)
    (neg : ∀ a a', R a a' → R (.neg a) (.neg a'))
    (left : ∀ op l l' r, R l l' → R (.binary op l r) (.binary op l' r))
    (right : ∀ op l r r', R r r' → R (.binary op l r) (.binary op l r'))
    (h : rule.applyFirst f = some g) : R f g := by
  induction f generalizing g with
  | var x => cases h
  | const b => cases h
  | neg a ih =>
    rw [applyFirst_neg, Option.or_eq_some_iff] at h
    rcases h with hroot | ⟨-, h⟩
    · exact root _ _ hroot
    · obtain ⟨a', ha, rfl⟩ := Option.map_eq_some_iff.mp h
      exact neg _ _ (ih ha)
  | binary op l r ihl ihr =>
    rw [applyFirst_binary, Option.or_eq_some_iff, Option.or_eq_some_iff] at h
    rcases h with hroot | ⟨-, h | ⟨-, h⟩⟩
    · exact root _ _ hroot
    · obtain ⟨l', hl, rfl⟩ := Option.map_eq_some_iff.mp h
      exact left _ _ _ _ (ihl hl)
    · obtain ⟨r', hr, rfl⟩ := Option.map_eq_some_iff.mp h
      exact right _ _ _ _ (ihr hr)

/-- **The search for a node is complete.** -/
theorem applyFirst_eq_none_iff :
    rule.applyFirst f = none ↔ ∀ g ∈ preOrder [f], rule.apply g = none := by
  induction f with
  | var x => simp [applyFirst, apply]
  | const b => simp [applyFirst, apply]
  | neg a ih =>
    rw [preOrder_neg, List.forall_mem_cons, ← ih, applyFirst_neg, Option.or_eq_none_iff,
      Option.map_eq_none_iff]
  | binary op l r ihl ihr =>
    rw [preOrder_binary, List.forall_mem_cons, List.forall_mem_append, ← ihl, ← ihr,
      applyFirst_binary, Option.or_eq_none_iff, Option.or_eq_none_iff, Option.map_eq_none_iff,
      Option.map_eq_none_iff]

theorem firstOf_eq_none_iff :
    firstOf rules f = none ↔ ∀ rule ∈ rules, rule.applyFirst f = none := by
  induction rules with
  | nil => simp [firstOf]
  | cons first rules ih =>
    rw [firstOf, List.forall_mem_cons, ← ih]
    cases first.applyFirst f with
    | some g => simp
    | none => simp

/-- **The law that is found** is the first of the list that applies anywhere. -/
theorem exists_earlier_of_firstOf (h : firstOf rules f = some (rule, g)) :
    rule.applyFirst f = some g ∧ ∃ earlier later, rules = earlier ++ rule :: later ∧
      ∀ other ∈ earlier, other.applyFirst f = none := by
  induction rules with
  | nil => cases h
  | cons first rules ih =>
    unfold firstOf at h
    split at h
    · rename_i happ
      cases h
      exact ⟨happ, [], rules, rfl, by simp⟩
    · rename_i hnone
      obtain ⟨happ, earlier, later, rfl, hearlier⟩ := ih h
      exact ⟨happ, first :: earlier, later, rfl, List.forall_mem_cons.mpr ⟨hnone, hearlier⟩⟩

theorem applyFirst_of_firstOf (h : firstOf rules f = some (rule, g)) :
    rule ∈ rules ∧ rule.applyFirst f = some g := by
  obtain ⟨happ, earlier, later, rfl, -⟩ := exists_earlier_of_firstOf h
  exact ⟨List.mem_append_right _ List.mem_cons_self, happ⟩

end Rule

/-! ## In a run -/

namespace Simplification

variable {rules : List Rule} {rule : Rule} {f g : Formula}

theorem run_of_firstOf (h : Rule.firstOf rules f = some (rule, g)) (n : Nat) :
    run rules (n + 1) f =
      { run rules n g with steps := ⟨rule, f, g⟩ :: (run rules n g).steps } := by
  rw [run, h]

/-- **From a step to a run**: what a step does from formula to formula, a run does too, if it can be
done in no step and in two after each other. -/
theorem run_lift {R : Formula → Formula → Prop} (refl : ∀ f, R f f)
    (trans : ∀ f g h, R f g → R g h → R f h)
    (step : ∀ rule ∈ rules, ∀ f g, rule.applyFirst f = some g → R f g) (n : Nat) (f : Formula) :
    R f (run rules n f).result := by
  fun_induction run rules n f with
  | case1 f => exact refl f
  | case2 n f hnone => exact refl f
  | case3 n f rule g h rest ih =>
    obtain ⟨hmem, happ⟩ := Rule.applyFirst_of_firstOf h
    exact trans _ _ _ (step rule hmem f g happ) ih

/-- **Every step of a run is what the search has found** in the formula before it. -/
theorem firstOf_of_mem_steps {n : Nat} {f : Formula} {step : Step}
    (h : step ∈ (run rules n f).steps) :
    Rule.firstOf rules step.before = some (step.rule, step.after) := by
  fun_induction run rules n f with
  | case1 f => cases h
  | case2 n f hnone => cases h
  | case3 n f rule g hfirst rest ih =>
    rcases List.mem_cons.mp h with rfl | h
    · exact hfirst
    · exact ih h

end Simplification

end Propositional
