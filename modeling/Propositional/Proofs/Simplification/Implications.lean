import Propositional.Proofs.Simplification.Capped

/-!
# Implications are eliminated first

The elimination of implications is the first law of the catalog, and it applies as long as there is
an implication. No law brings one back. So a run has two phases: it eliminates one implication after
the other, wherever the search finds the next, and when all are gone it never does so again. What it
has come to in between does not depend on the order in which they were found: it is
`withoutImplications`, by recursion on the formula.

* `Rule.eliminates_of_applyFirst`: an elimination takes away one implication and does not change
  what is to come of the formula.
* `Simplification.run_implicationCount`: the first phase.
* `Simplification.implicationFree_of_mem_steps`: the second phase.
* `Formula.implications_are_eliminated_first`: both phases in a run of the catalog.
-/

namespace Propositional

open Formula

/-! ## The formula without implications -/

namespace Formula

/-- The formula with `¬l ⋁ r` for every implication `l ➔ r`, at every depth. -/
def withoutImplications : Formula → Formula
  | var x => var x
  | const b => const b
  | neg a => neg a.withoutImplications
  | binary .implies l r => binary .or (neg l.withoutImplications) r.withoutImplications
  | binary op l r => binary op l.withoutImplications r.withoutImplications

theorem withoutImplications_binary {op : Connective} (h : op ≠ .implies) (l r : Formula) :
    (binary op l r).withoutImplications =
      binary op l.withoutImplications r.withoutImplications := by
  cases op with
  | implies => exact absurd rfl h
  | _ => rfl

/-- A formula without implications is left as it is. -/
theorem withoutImplications_of_count_eq_zero {f : Formula} (h : f.implicationCount = 0) :
    f.withoutImplications = f := by
  induction f with
  | var x => rfl
  | const b => rfl
  | neg a ih => rw [withoutImplications, ih (by simpa using h)]
  | binary op l r ihl ihr =>
    have hop : op ≠ .implies := by
      rintro rfl
      simp at h
    rw [implicationCount_binary op l r hop, Nat.add_eq_zero_iff] at h
    rw [withoutImplications_binary hop, ihl h.1, ihr h.2]

@[simp] theorem implicationCount_withoutImplications (f : Formula) :
    f.withoutImplications.implicationCount = 0 := by
  induction f with
  | var x => simp [withoutImplications]
  | const b => simp [withoutImplications]
  | neg a ih => simpa [withoutImplications] using ih
  | binary op l r ihl ihr =>
    cases op <;> simp [withoutImplications, implicationCount_binary, ihl, ihr]

end Formula

/-! ## One elimination -/

namespace Rule

variable {f g : Formula}

theorem apply_implicationElimination (f : Formula) :
    implicationElimination.apply f = match f with
      | .binary .implies l r => some (.binary .or (.neg l) r)
      | _ => none := by
  cases f with
  | binary op l r => cases op <;> rfl
  | neg a => cases a <;> rfl
  | _ => rfl

/-- **There is something to eliminate** as long as there is an implication. -/
theorem applyFirst_implicationElimination_eq_none_iff :
    implicationElimination.applyFirst f = none ↔ f.implicationCount = 0 := by
  rw [applyFirst_eq_none_iff, implicationCount, List.countP_eq_zero]
  refine forall_congr' fun g => imp_congr_right fun _ => ?_
  rw [apply_implicationElimination]
  cases g with
  | binary op l r => cases op <;> simp [isImplication]
  | _ => simp [isImplication]

/-- **An elimination takes away one implication**, and what is to come of the formula stays the
same. -/
theorem eliminates_of_applyFirst (h : implicationElimination.applyFirst f = some g) :
    f.implicationCount = g.implicationCount + 1 ∧
      g.withoutImplications = f.withoutImplications := by
  refine applyFirst_lift (R := fun f g => f.implicationCount = g.implicationCount + 1 ∧
    g.withoutImplications = f.withoutImplications) ?_ ?_ ?_ ?_ h
  · intro f g happ
    rw [apply_implicationElimination] at happ
    split at happ
    · obtain rfl := Option.some.inj happ
      exact ⟨by simp [implicationCount_binary], rfl⟩
    · cases happ
  · rintro a a' ⟨hcount, hsame⟩
    exact ⟨by simpa using hcount, by rw [withoutImplications, hsame, withoutImplications]⟩
  · rintro op l l' r ⟨hcount, hsame⟩
    cases op <;> simp [implicationCount_binary, withoutImplications, hcount, hsame] <;> omega
  · rintro op l r r' ⟨hcount, hsame⟩
    cases op <;> simp [implicationCount_binary, withoutImplications, hcount, hsame] <;> omega

theorem exists_elimination (rules : List Rule) (h : 0 < f.implicationCount) :
    ∃ g, firstOf (implicationElimination :: rules) f = some (implicationElimination, g) ∧
      f.implicationCount = g.implicationCount + 1 ∧
      g.withoutImplications = f.withoutImplications := by
  cases happ : implicationElimination.applyFirst f with
  | none =>
    have hnone := applyFirst_implicationElimination_eq_none_iff.mp happ
    omega
  | some g => exact ⟨g, by rw [firstOf, happ], eliminates_of_applyFirst happ⟩

theorem ne_implicationElimination_of_applyFirst {rule : Rule} (h : f.implicationCount = 0)
    (happ : rule.applyFirst f = some g) : rule ≠ implicationElimination := by
  rintro rfl
  rw [applyFirst_implicationElimination_eq_none_iff.mpr h] at happ
  cases happ

end Rule

/-! ## The two phases of a run -/

namespace Simplification

variable {rules : List Rule} {f : Formula} {n : Nat} {step : Step}

/-- The formulas that a run from `f` goes through, from `f` to the result. -/
def formulas (f : Formula) (s : Simplification) : List Formula := f :: s.steps.map Step.after

/-- The last formula of a run is its result. -/
theorem getLast?_formulas (rules : List Rule) (n : Nat) (f : Formula) :
    ((run rules n f).formulas f).getLast? = some (run rules n f).result := by
  fun_induction run rules n f with
  | case1 f => rfl
  | case2 n f hnone => rfl
  | case3 n f rule g hfirst rest ih =>
    rw [formulas, List.map_cons, List.getLast?_cons_cons]
    exact ih

/-- **The first phase.** With the cap at the number of implications, a run does nothing but
eliminate them, and comes to the formula without implications. -/
theorem run_implicationCount (rules : List Rule) (f : Formula) :
    (run (.implicationElimination :: rules) f.implicationCount f).result = f.withoutImplications ∧
      (run (.implicationElimination :: rules) f.implicationCount f).steps.map Step.rule =
        List.replicate f.implicationCount .implicationElimination := by
  induction h : f.implicationCount generalizing f with
  | zero => exact ⟨(withoutImplications_of_count_eq_zero h).symm, rfl⟩
  | succ k ih =>
    have hpos : 0 < f.implicationCount := by omega
    obtain ⟨g, hfirst, hcount, hsame⟩ := Rule.exists_elimination rules hpos
    obtain ⟨hresult, hrules⟩ := ih g (by omega)
    rw [run_of_firstOf hfirst, List.map_cons, List.replicate_succ, hrules]
    exact ⟨hresult.trans hsame, rfl⟩

/-- **The second phase.** Where there is no implication, no step eliminates one or brings one
back. -/
theorem implicationFree_of_mem_steps (h : f.implicationCount = 0)
    (hstep : step ∈ (run rules n f).steps) :
    step.rule ≠ .implicationElimination ∧ step.after.implicationCount = 0 := by
  fun_induction run rules n f with
  | case1 f => cases hstep
  | case2 n f hnone => cases hstep
  | case3 n f rule g hfirst rest ih =>
    have happ := (Rule.applyFirst_of_firstOf hfirst).2
    have hg : g.implicationCount = 0 :=
      Nat.le_zero.mp (h ▸ (Rule.pays_of_applyFirst happ).implicationCount_le)
    rcases List.mem_cons.mp hstep with rfl | hstep
    · exact ⟨Rule.ne_implicationElimination_of_applyFirst h happ, hg⟩
    · exact ih hg hstep

/-- **One phase after the other**: the formulas of the first phase end with the one that the second
phase starts from. -/
theorem formulas_two_phases (rules : List Rule) (n : Nat) (f : Formula) :
    ∃ first : List Formula, first.length = f.implicationCount ∧
      (run (.implicationElimination :: rules) (f.implicationCount + n) f).formulas f =
        first ++ f.withoutImplications ::
          (run (.implicationElimination :: rules) n f.withoutImplications).steps.map Step.after := by
  obtain ⟨hresult, hrules⟩ := run_implicationCount rules f
  have hlast := getLast?_formulas (.implicationElimination :: rules) f.implicationCount f
  obtain ⟨first, hfirst⟩ := List.getLast?_eq_some_iff.mp hlast
  refine ⟨first, ?_, ?_⟩
  · have hlength := congrArg List.length hfirst
    have hcount := congrArg List.length hrules
    simp only [formulas, List.length_cons, List.length_append, List.length_map,
      List.length_replicate, List.length_nil] at hlength hcount
    omega
  · rw [formulas, (run_add _ _ n f).2, List.map_append, ← List.cons_append]
    change formulas f _ ++ _ = _
    rw [hfirst, hresult, List.append_assoc]
    rfl

end Simplification

/-! ## A run of the catalog -/

/-- **Implications are eliminated first, once each, and completely.** A run of the catalog from a
formula with `k` implications, with a cap that is at least `k`, begins with `k` eliminations of an
implication and makes no other. The formula after these steps is the one with `¬l ⋁ r` for every
implication `l ➔ r`, at every depth, and neither it nor any formula after it, up to the result, has
an implication. -/
theorem Formula.implications_are_eliminated_first (f : Formula) (cap : Int)
    (hcap : f.implicationCount ≤ cap) :
    let run := f.simplify Rule.catalog cap
    (∃ later, run.steps.map Step.rule =
        List.replicate f.implicationCount .implicationElimination ++ later ∧
          .implicationElimination ∉ later) ∧
      (run.formulas f)[f.implicationCount]? = some f.withoutImplications ∧
      (∀ g ∈ (run.formulas f).drop f.implicationCount, g.implicationCount = 0) ∧
      (run.formulas f).getLast? = some run.result := by
  intro run
  obtain ⟨n, hn⟩ : ∃ n, cap.toNat = f.implicationCount + n := Nat.exists_eq_add_of_le (by omega)
  -- the elimination of implications is the first law of the catalog
  let rules : List Rule := .implicationElimination :: Rule.catalog.tail
  have hrun : run = Simplification.run rules (f.implicationCount + n) f := by
    rw [← hn]
    rfl
  have hfree (step : Step)
      (hstep : step ∈ (Simplification.run rules n f.withoutImplications).steps) :
      step.rule ≠ .implicationElimination ∧ step.after.implicationCount = 0 :=
    Simplification.implicationFree_of_mem_steps f.implicationCount_withoutImplications hstep
  obtain ⟨first, hlength, hformulas⟩ := Simplification.formulas_two_phases Rule.catalog.tail n f
  rw [← hrun] at hformulas
  refine ⟨⟨(Simplification.run rules n f.withoutImplications).steps.map Step.rule, ?_, ?_⟩,
    ?_, ?_, ?_⟩
  · obtain ⟨hresult, hrules⟩ := Simplification.run_implicationCount Rule.catalog.tail f
    rw [hrun, (Simplification.run_add rules _ n f).2, List.map_append, hrules, hresult]
  · intro hmem
    obtain ⟨step, hstep, hrule⟩ := List.mem_map.mp hmem
    exact (hfree step hstep).1 hrule
  · rw [hformulas, ← hlength, List.getElem?_append_right (Nat.le_refl _), Nat.sub_self]
    rfl
  · rw [hformulas, ← hlength, List.drop_left, List.forall_mem_cons]
    refine ⟨f.implicationCount_withoutImplications, fun g hg => ?_⟩
    obtain ⟨step, hstep, rfl⟩ := List.mem_map.mp hg
    exact (hfree step hstep).2
  · exact Simplification.getLast?_formulas Rule.catalog cap.toNat f

/-- `(A➔B)➔(¬A➔C)` has three implications. They are gone after three steps, which leave
`¬(¬A⋁B)⋁(¬¬A⋁C)`, and only then the double negation is looked at. -/
theorem Formula.implications_are_eliminated_first_nested :
    let f : Formula := binary .implies (binary .implies (var "A") (var "B"))
      (binary .implies (neg (var "A")) (var "C"))
    let g : Formula := binary .or (neg (binary .or (neg (var "A")) (var "B")))
      (binary .or (neg (neg (var "A"))) (var "C"))
    f.implicationCount = 3 ∧ f.withoutImplications = g ∧
      (f.simplify Rule.catalog 4).steps.map Step.rule =
        [.implicationElimination, .implicationElimination, .implicationElimination,
          .doubleNegation] ∧
      ((f.simplify Rule.catalog 4).formulas f)[3]? = some g ∧
      ∀ h ∈ ((f.simplify Rule.catalog 4).formulas f).drop 3, h.implicationCount = 0 := by
  intro f g
  have hcount : f.implicationCount = 3 := by simp [f]
  have hcap : (f.implicationCount : Int) ≤ 4 := by
    rw [hcount]
    decide
  obtain ⟨-, hafter, hfree, -⟩ := f.implications_are_eliminated_first 4 hcap
  rw [hcount] at hafter hfree
  exact ⟨hcount, rfl, by decide, hafter, hfree⟩

end Propositional
