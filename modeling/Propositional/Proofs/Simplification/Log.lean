import Propositional.Inquiry.Document
import Propositional.Proofs.Formula.Context
import Propositional.Proofs.Grammar.RoundTrip
import Propositional.Proofs.Simplification.Fixpoint
import Propositional.Proofs.Simplification.Leaves

/-!
# The log of a simplification

Every step of the log takes the formula to which the steps before it have come, and changes one node
of it: the first one, from the root down and from left to right, at which the law applies. The
formula after `i` steps is the result of a run with the cap `i`.

* `Rule.RewritesFirst`: one node is changed, in a context that stays, and nothing before it could
  be. `Rule.applyFirst_eq_some_iff` says that the search for a node does this and nothing else.
* `Simplification.before_after_of_getElem?`: step by step, the log goes through the results of the
  shorter runs.
* `Simplification.weight_result_lt`: these get lighter all the time, so none of them comes twice.
* `Formula.log_of_simplify`: the account that the log gives of a run.
-/

namespace Propositional

open Formula

/-! ## The node that a law is applied to -/

namespace Rule

variable {rule : Rule} {f g : Formula}

/-- **The law is applied at one node, and at none before.** The rest of the formula is the same
context before and after, and the law applies to no node that a walk from the root meets before this
one. -/
def RewritesFirst (rule : Rule) (f g : Formula) : Prop :=
  ∃ (c : Context) (a b : Formula), f = c.fill a ∧ g = c.fill b ∧ rule.apply a = some b ∧
    preOrder [f] = c.earlier a ++ preOrder [a] ++ c.later ∧ ∀ h ∈ c.earlier a, rule.apply h = none

theorem rewritesFirst_fill {a b : Formula} (happ : rule.apply a = some b) (c : Context)
    (h : ∀ g ∈ c.earlier a, rule.apply g = none) : rule.RewritesFirst (c.fill a) (c.fill b) :=
  ⟨c, a, b, rfl, rfl, happ, c.preOrder_fill a, h⟩

theorem rewritesFirst_of_applyFirst (h : rule.applyFirst f = some g) : rule.RewritesFirst f g := by
  induction f generalizing g with
  | var x => cases h
  | const b => cases h
  | neg a ih =>
    rw [applyFirst_neg, Option.or_eq_some_iff] at h
    rcases h with hroot | ⟨hroot, h⟩
    · exact rewritesFirst_fill hroot .hole (by simp [Context.earlier])
    · obtain ⟨a', ha, rfl⟩ := Option.map_eq_some_iff.mp h
      obtain ⟨c, p, q, rfl, rfl, happ, -, hearlier⟩ := ih ha
      exact rewritesFirst_fill happ (.neg c) (List.forall_mem_cons.mpr ⟨hroot, hearlier⟩)
  | binary op l r ihl ihr =>
    rw [applyFirst_binary, Option.or_eq_some_iff, Option.or_eq_some_iff] at h
    rcases h with hroot | ⟨hroot, h | ⟨hleft, h⟩⟩
    · exact rewritesFirst_fill hroot .hole (by simp [Context.earlier])
    · obtain ⟨l', hl, rfl⟩ := Option.map_eq_some_iff.mp h
      obtain ⟨c, p, q, rfl, rfl, happ, -, hearlier⟩ := ihl hl
      exact rewritesFirst_fill happ (.left op c r) (List.forall_mem_cons.mpr ⟨hroot, hearlier⟩)
    · obtain ⟨r', hr, rfl⟩ := Option.map_eq_some_iff.mp h
      obtain ⟨c, p, q, rfl, rfl, happ, -, hearlier⟩ := ihr hr
      -- the whole left operand comes before the node, and the search has found nothing in it
      have hnone := applyFirst_eq_none_iff.mp (Option.map_eq_none_iff.mp hleft)
      exact rewritesFirst_fill happ (.right op l c)
        (List.forall_mem_cons.mpr ⟨hroot, List.forall_mem_append.mpr ⟨hnone, hearlier⟩⟩)

theorem applyFirst_fill {a b : Formula} (happ : rule.apply a = some b) (c : Context)
    (h : ∀ g ∈ c.earlier a, rule.apply g = none) :
    rule.applyFirst (c.fill a) = some (c.fill b) := by
  induction c with
  | hole => exact applyFirst_of_apply happ
  | neg c ih =>
    rw [Context.earlier, List.forall_mem_cons] at h
    rw [Context.fill, applyFirst_neg, h.1, ih h.2]
    rfl
  | left op c r ih =>
    rw [Context.earlier, List.forall_mem_cons] at h
    rw [Context.fill, applyFirst_binary, h.1, ih h.2]
    rfl
  | right op l c ih =>
    rw [Context.earlier, List.forall_mem_cons, List.forall_mem_append] at h
    rw [Context.fill, applyFirst_binary, h.1, applyFirst_eq_none_iff.mpr h.2.1, ih h.2.2]
    rfl

/-- **The search for a node** finds the first one to which the law applies, and changes nothing
else. -/
theorem applyFirst_eq_some_iff : rule.applyFirst f = some g ↔ rule.RewritesFirst f g := by
  refine ⟨rewritesFirst_of_applyFirst, ?_⟩
  rintro ⟨c, a, b, rfl, rfl, happ, -, h⟩
  exact applyFirst_fill happ c h

end Rule

/-! ## The formulas of a run -/

namespace Simplification

variable {rules : List Rule} {f : Formula} {n i j : Nat} {step : Step}

/-- **The log goes through the results of the shorter runs.** -/
theorem before_after_of_getElem? (h : (run rules n f).steps[i]? = some step) :
    step.before = (run rules i f).result ∧ step.after = (run rules (i + 1) f).result := by
  induction n generalizing f i with
  | zero => cases h
  | succ n ih =>
    cases hfirst : Rule.firstOf rules f with
    | none => rw [run, hfirst] at h; cases h
    | some found =>
      rw [run_of_firstOf hfirst] at h
      cases i with
      | zero =>
        obtain rfl := Option.some.inj h
        rw [run_of_firstOf hfirst]
        exact ⟨rfl, rfl⟩
      | succ i =>
        rw [List.getElem?_cons_succ] at h
        rw [run_of_firstOf hfirst, run_of_firstOf hfirst]
        exact ih h

/-- The result is what the steps of the log have come to. -/
theorem result_run_length (rules : List Rule) (n : Nat) (f : Formula) :
    (run rules (run rules n f).steps.length f).result = (run rules n f).result := by
  fun_induction run rules n f with
  | case1 f => rfl
  | case2 n f hnone => rfl
  | case3 n f rule g hfirst rest ih =>
    rw [List.length_cons, run_of_firstOf hfirst]
    exact ih

/-- **The formulas of a run get lighter all the time.** -/
theorem weight_result_lt (hij : i < j) (hj : j ≤ (run rules n f).steps.length) :
    (run rules j f).result.weight < (run rules i f).result.weight := by
  have next (i : Nat) (hi : i < (run rules n f).steps.length) :
      (run rules (i + 1) f).result.weight < (run rules i f).result.weight := by
    have hstep := List.getElem?_eq_getElem hi
    obtain ⟨hbefore, hafter⟩ := before_after_of_getElem? hstep
    rw [← hbefore, ← hafter]
    have hfirst := firstOf_of_mem_steps (List.getElem_mem hi)
    exact Rule.weight_lt_of_applyFirst (Rule.applyFirst_of_firstOf hfirst).2
  induction hij with
  | refl => exact next i hj
  | step hlt ih => exact Nat.lt_trans (next _ hj) (ih (Nat.le_of_succ_le hj))

/-- A formula with legal names that is written like another of the run is the same one. -/
theorem eq_of_render_eq (hlegal : ∀ x ∈ names [f], LegalName x)
    (hi : i ≤ (run rules n f).steps.length) (hj : j ≤ (run rules n f).steps.length)
    (h : (run rules i f).result.render = (run rules j f).result.render) : i = j := by
  have legal (i : Nat) : ∀ x ∈ names [(run rules i f).result], LegalName x :=
    fun x hx => hlegal x (mem_names_of_run rules i f hx)
  have heq := render_injective (legal i) (legal j) h
  rcases Nat.lt_trichotomy i j with hlt | rfl | hlt
  · exact absurd (weight_result_lt hlt hj) (by rw [heq]; exact Nat.lt_irrefl _)
  · rfl
  · exact absurd (weight_result_lt hlt hi) (by rw [heq]; exact Nat.lt_irrefl _)

end Simplification

/-! ## The account of a run -/

/-- **The log is a faithful account of the run, and never comes back to a formula.** With `t i` for
the result under the cap `i`, the run starts at `t 0`, ends at `t k` for `k` steps, and step `i` is
reported with the texts of `t i` and `t (i + 1)`. That step applies its law at the first node of `t
i` at which it can be applied and leaves all else as it is, and no earlier law of the list could be
applied anywhere. If all names are legal, no two of the formulas from `t 0` to `t k` have the same
text. -/
theorem Formula.log_of_simplify (f : Formula) (rules : List Rule) (cap : Int) :
    let t : Nat → Formula := fun i => (f.simplify rules i).result
    let steps := (f.simplify rules cap).steps
    t 0 = f ∧ t steps.length = (f.simplify rules cap).result ∧
      (∀ i step, steps[i]? = some step →
        step.document = .object [("rule", .text step.rule.name), ("before", .text (t i).render),
          ("after", .text (t (i + 1)).render)] ∧
        step.rule.RewritesFirst (t i) (t (i + 1)) ∧
        ∃ earlier later, rules = earlier ++ step.rule :: later ∧
          ∀ rule ∈ earlier, ∀ g ∈ preOrder [t i], rule.apply g = none) ∧
      ((∀ x ∈ names [f], LegalName x) →
        ∀ i j, i ≤ steps.length → j ≤ steps.length → (t i).render = (t j).render → i = j) := by
  intro t steps
  refine ⟨rfl, Simplification.result_run_length rules cap.toNat f, fun i step h => ?_,
    fun hlegal i j hi hj => Simplification.eq_of_render_eq hlegal hi hj⟩
  obtain ⟨hbefore, hafter⟩ := Simplification.before_after_of_getElem? h
  have hfirst := Simplification.firstOf_of_mem_steps (List.mem_of_getElem? h)
  obtain ⟨happ, earlier, later, hrules, hearlier⟩ := Rule.exists_earlier_of_firstOf hfirst
  rw [hbefore, hafter] at happ
  refine ⟨?_, Rule.applyFirst_eq_some_iff.mp happ, earlier, later, hrules, fun rule hrule => ?_⟩
  · rw [Step.document, hbefore, hafter]
    rfl
  · have hnone := Rule.applyFirst_eq_none_iff.mp (hearlier rule hrule)
    rw [hbefore] at hnone
    exact hnone

/-- `¬¬(A⋀True)` comes to `A` in two steps, the first of them below both negations. The law on
double negations applies at the root, but it comes later in the list. -/
theorem Formula.log_of_simplify_nested :
    let f : Formula := neg (neg (binary .and (var "A") (const true)))
    let rules : List Rule := [.identity, .doubleNegation]
    let step : Step := ⟨.identity, f, neg (neg (var "A"))⟩
    (∀ x ∈ names [f], LegalName x) ∧ (f.simplify rules 5).steps[0]? = some step ∧
      step.document = .object [("rule", .text "Identity law"), ("before", .text "¬¬(A⋀True)"),
        ("after", .text "¬¬A")] ∧
      Rule.identity.RewritesFirst f (neg (neg (var "A"))) ∧
      f.render ≠ (f.simplify rules 2).result.render := by
  intro f rules step
  have hlegal : ∀ x ∈ names [f], LegalName x := by decide +kernel
  have hstep : (f.simplify rules 5).steps[0]? = some step := by decide
  obtain ⟨-, -, hsteps, hdistinct⟩ := f.log_of_simplify rules 5
  obtain ⟨hdocument, hfirst, -⟩ := hsteps 0 step hstep
  exact ⟨hlegal, hstep, hdocument, hfirst,
    fun h => by cases hdistinct hlegal 0 2 (by decide) (by decide) h⟩

end Propositional
