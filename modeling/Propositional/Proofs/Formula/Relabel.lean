import Propositional.Proofs.Formula.Count
import Propositional.Rule.Basic

/-!
# Relabelling the nodes of a formula

A relabelling keeps the shape of a formula and puts other names, constants and connectives at its
nodes. Both the renaming of variables and the exchange of `⋀` with `⋁` and of `True` with `False`
are of this kind.

The laws look at nothing but the shape, equality of parts, and how constants and connectives go
together. `Relabelling.Suits` says what a relabelling has to keep of that on the nodes of a formula.

* `Relabelling.Suits.relabel_eq_iff`: different parts of a formula stay different.
* `suits_rename`, `suits_dual`: a renaming suits every formula whose names it keeps apart, and the
  exchange suits every formula without implications.
-/

namespace Propositional

/-- What to put for each name, constant and connective. -/
structure Relabelling where
  name : String → String
  value : Bool → Bool
  op : Connective → Connective

namespace Formula

/-- The formula with the same shape and other labels. -/
def relabel (ρ : Relabelling) : Formula → Formula
  | var x => var (ρ.name x)
  | const b => const (ρ.value b)
  | neg a => neg (a.relabel ρ)
  | binary op l r => binary (ρ.op op) (l.relabel ρ) (r.relabel ρ)

/-- The formula with `name x` for every variable `x`. -/
def rename (name : String → String) : Formula → Formula := relabel ⟨name, id, id⟩

/-- The formula with `⋀` for `⋁` and `True` for `False`, and the other way round. Implications are
left as they are. -/
def dual : Formula → Formula := relabel ⟨id, not, Connective.dual⟩

end Formula

open Formula

/-- **The relabelling keeps what the laws look at**, on the nodes of `f`: which constant is the
opposite of which and which is neutral for which connective, and which names are different. The
elimination of an implication puts in a `⋁`, so with implications this has to stay one. -/
structure Relabelling.Suits (ρ : Relabelling) (f : Formula) : Prop where
  value_not : ∀ b, ρ.value (!b) = !ρ.value b
  neutral : ∀ op, (ρ.op op).neutral? = op.neutral?.map ρ.value
  name_inj : ∀ x ∈ names [f], ∀ y ∈ names [f], ρ.name x = ρ.name y → x = y
  or_of_implication : ρ.op .or = .or ∨ f.implicationCount = 0

namespace Relabelling.Suits

variable {ρ : Relabelling} {f a b : Formula}

/-! ## Labels -/

theorem value_eq_iff (h : ρ.Suits f) {b c : Bool} : ρ.value b = ρ.value c ↔ b = c := by
  refine ⟨fun heq => ?_, fun heq => heq ▸ rfl⟩
  by_cases hbc : b = c
  · exact hbc
  · rw [Bool.eq_not_of_ne hbc, h.value_not] at heq
    simp at heq

theorem op_eq_iff (h : ρ.Suits f) {op op' : Connective} : ρ.op op = ρ.op op' ↔ op = op' := by
  refine ⟨fun heq => ?_, fun heq => heq ▸ rfl⟩
  have hmap : op.neutral?.map ρ.value = op'.neutral?.map ρ.value := by
    rw [← h.neutral, ← h.neutral, heq]
  exact Connective.neutral?_injective
    (Option.map_injective (fun _ _ => h.value_eq_iff.mp) hmap)

theorem op_dual (h : ρ.Suits f) (op : Connective) : ρ.op op.dual = (ρ.op op).dual := by
  apply Connective.neutral?_injective
  rw [h.neutral, Connective.neutral?_dual, Connective.neutral?_dual, h.neutral, Option.map_map,
    Option.map_map]
  exact congrArg (Option.map · op.neutral?) (funext h.value_not)

/-! ## Parts of the formula -/

/-- It suits whatever has only names of `f` and no more implications. -/
theorem of_le (h : ρ.Suits f) (hnames : ∀ x ∈ names [a], x ∈ names [f])
    (hcount : a.implicationCount ≤ f.implicationCount) : ρ.Suits a where
  value_not := h.value_not
  neutral := h.neutral
  name_inj x hx y hy := h.name_inj x (hnames x hx) y (hnames y hy)
  or_of_implication := h.or_of_implication.imp_right fun hzero => by omega

/-- **Different parts stay different.** -/
theorem relabel_eq_iff (h : ρ.Suits f) (ha : ∀ x ∈ names [a], x ∈ names [f])
    (hb : ∀ x ∈ names [b], x ∈ names [f]) : a.relabel ρ = b.relabel ρ ↔ a = b := by
  induction a generalizing b with
  | var x =>
    cases b with
    | var y =>
      simp only [relabel, var.injEq]
      exact ⟨h.name_inj x (ha x (by simp)) y (hb y (by simp)), fun heq => heq ▸ rfl⟩
    | _ => simp [relabel]
  | const c => cases b <;> simp [relabel, h.value_eq_iff]
  | neg a ih =>
    cases b with
    | neg b => simp [relabel, ih (by simpa using ha) (by simpa using hb)]
    | _ => simp [relabel]
  | binary op l r ihl ihr =>
    cases b with
    | binary op' l' r' =>
      simp only [mem_names_binary, or_imp, forall_and] at ha hb
      simp [relabel, h.op_eq_iff, ihl ha.1 hb.1, ihr ha.2 hb.2]
    | _ => simp [relabel]

theorem relabel_eq_const_iff (h : ρ.Suits f) {c : Bool} :
    a.relabel ρ = const (ρ.value c) ↔ a = const c := by
  cases a <;> simp [relabel, h.value_eq_iff]

end Relabelling.Suits

namespace Formula

variable {f : Formula}

theorem suits_rename {name : String → String}
    (hname : ∀ x ∈ names [f], ∀ y ∈ names [f], name x = name y → x = y) :
    Relabelling.Suits ⟨name, id, id⟩ f where
  value_not _ := rfl
  neutral op := by simp
  name_inj := hname
  or_of_implication := Or.inl rfl

theorem suits_dual (hfree : f.implicationCount = 0) :
    Relabelling.Suits ⟨id, not, Connective.dual⟩ f where
  value_not _ := rfl
  neutral := Connective.neutral?_dual
  name_inj _ _ _ _ h := h
  or_of_implication := Or.inr hfree

end Formula

end Propositional
