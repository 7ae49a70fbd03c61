import Propositional.Proofs.Journal.Complaints
import Propositional.Proofs.Simplification.Fixpoint

/-!
# A cap on the steps only cuts a simplification short

Every step makes the weight smaller, so the steps can also be taken without a cap, until no law
applies. A capped run takes the first of these steps, as many as its cap allows, and a run that goes
on from where another one ended takes the next of them. That all steps have been taken is noticed
only with a step to spare.

* `allSteps`: the steps of the run without a cap.
* `steps_run`, `stopped_run_iff`, `stopped_simplify_iff`: a capped run in terms of these.
* `run_add`: a run with the cap `m + n` is one with the cap `m`, and one with the cap `n` from
  there.
* `Formula.capped_runs_compose`: the account of caps, with the warning of a run that is stopped.
-/

namespace Propositional

namespace Simplification

variable {rules : List Rule} {rule : Rule} {f g : Formula} {m n : Nat}

/-! ## Without a cap -/

/-- All steps that a formula goes through until no law applies. -/
def allSteps (rules : List Rule) (f : Formula) : List Step :=
  match h : Rule.firstOf rules f with
  | none => []
  | some (rule, g) =>
    have : g.weight < f.weight := Rule.weight_lt_of_applyFirst (Rule.applyFirst_of_firstOf h).2
    ⟨rule, f, g⟩ :: allSteps rules g
termination_by f.weight

theorem allSteps_of_none (h : Rule.firstOf rules f = none) : allSteps rules f = [] := by
  unfold allSteps
  split
  · rfl
  · rename_i hsome
    rw [h] at hsome
    cases hsome

theorem allSteps_of_firstOf (h : Rule.firstOf rules f = some (rule, g)) :
    allSteps rules f = ⟨rule, f, g⟩ :: allSteps rules g := by
  rw [allSteps]
  split
  · rename_i hnone
    rw [h] at hnone
    cases hnone
  · rename_i hsome
    rw [h] at hsome
    cases hsome
    rfl

/-- **A capped run takes the first steps of the run without a cap.** -/
theorem steps_run (rules : List Rule) (n : Nat) (f : Formula) :
    (run rules n f).steps = (allSteps rules f).take n := by
  fun_induction run rules n f with
  | case1 f => rfl
  | case2 n f hnone => rw [allSteps_of_none hnone]; rfl
  | case3 n f rule g hfirst rest ih =>
    rw [allSteps_of_firstOf hfirst, List.take_succ_cons]
    exact congrArg _ ih

/-- **A run is stopped if its cap leaves no step to spare.** -/
theorem stopped_run_iff (rules : List Rule) (n : Nat) (f : Formula) :
    (run rules n f).stopped = true ↔ n ≤ (allSteps rules f).length := by
  fun_induction run rules n f with
  | case1 f => simp
  | case2 n f hnone => simp [unchanged, allSteps_of_none hnone]
  | case3 n f rule g hfirst rest ih =>
    rw [allSteps_of_firstOf hfirst, List.length_cons, Nat.succ_le_succ_iff]
    exact ih

theorem stopped_simplify_iff (rules : List Rule) (c : Int) (f : Formula) :
    (f.simplify rules c).stopped = true ↔ c ≤ (allSteps rules f).length := by
  rw [Formula.simplify, stopped_run_iff]
  omega

/-! ## One run after the other -/

/-- **A run goes on where a run with a smaller cap has ended.** -/
theorem run_add (rules : List Rule) (m n : Nat) (f : Formula) :
    (run rules (m + n) f).result = (run rules n (run rules m f).result).result ∧
      (run rules (m + n) f).steps =
        (run rules m f).steps ++ (run rules n (run rules m f).result).steps := by
  fun_induction run rules m f with
  | case1 f => simp
  | case2 m f hnone =>
    -- a run from a formula to which no law applies does nothing, whatever its cap
    have hnormal : IsNormal rules f := isNormal_iff.mpr hnone
    rw [run_of_isNormal hnormal (by omega)]
    cases n with
    | zero => exact ⟨rfl, rfl⟩
    | succ n => rw [unchanged, run_of_isNormal hnormal n.succ_pos]; exact ⟨rfl, rfl⟩
  | case3 m f rule g hfirst rest ih =>
    obtain ⟨hresult, hsteps⟩ := ih
    rw [Nat.succ_add, run_of_firstOf hfirst]
    exact ⟨hresult, congrArg _ hsteps⟩

/-! ## The warning of a stopped run -/

/-- The only thing that a run can warn of is that it was stopped. -/
theorem warnings_events (cap : Int) (f : Formula) (s : Simplification) :
    (s.events cap f).filter (·.level = .warning) =
      if s.stopped then [.stopped cap s.result.render] else [] :=
  (Event.warnsOf_of_complaints (complaints_events cap f s) fun _ => level_of_mem_complaints).filter_eq

end Simplification

/-! ## The account of caps -/

open Simplification in
/-- **Capped runs compose.** For caps `a` and `b` that are not negative, a run with the cap `a` and
a run with the cap `b` from its result come to the result of the run with the cap `a + b`, and their
steps together are its steps. A run with a smaller cap has the first steps of one with a larger cap.
If the run without a cap has `N` steps, a run with any cap `c` has the first `min N (max c 0)` of
them, and it warns that it was stopped after `c` steps if `c ≤ N`, and of nothing otherwise. -/
theorem Formula.capped_runs_compose (f : Formula) (rules : List Rule) :
    (∀ a b : Int, 0 ≤ a → 0 ≤ b →
      ((f.simplify rules a).result.simplify rules b).result = (f.simplify rules (a + b)).result ∧
        (f.simplify rules a).steps ++ ((f.simplify rules a).result.simplify rules b).steps =
          (f.simplify rules (a + b)).steps) ∧
      (∀ a c : Int, a ≤ c → (f.simplify rules a).steps <+: (f.simplify rules c).steps) ∧
      ∀ c : Int,
        (f.simplify rules c).steps <+: allSteps rules f ∧
          ((f.simplify rules c).steps.length : Int) =
            min ((allSteps rules f).length : Int) (max c 0) ∧
          ((f.simplify rules c).stopped = true ↔ c ≤ (allSteps rules f).length) ∧
          ((f.simplify rules c).events c f).filter (·.level = .warning) =
            if c ≤ (allSteps rules f).length then
              [.stopped c (f.simplify rules c).result.render] else [] := by
  refine ⟨fun a b ha hb => ?_, fun a c hac => ?_,
    fun c => ⟨?_, ?_, stopped_simplify_iff rules c f, ?_⟩⟩
  · obtain ⟨hresult, hsteps⟩ := run_add rules a.toNat b.toNat f
    rw [← Int.toNat_add ha hb] at hresult hsteps
    exact ⟨hresult.symm, hsteps.symm⟩
  · have hle : a.toNat ≤ c.toNat := Int.toNat_le_toNat hac
    rw [simplify, simplify, steps_run, steps_run]
    exact List.take_prefix_take_left hle
  · rw [simplify, steps_run]
    exact List.take_prefix _ _
  · rw [simplify, steps_run, List.length_take]
    omega
  · rw [warnings_events]
    simp only [stopped_simplify_iff]

/-- `A➔A⋀True` comes to `True` in three steps, one of them with the cap one and the other two from
there. A run with the cap three is stopped behind the last of them, and one with the cap four is
not. -/
theorem Formula.capped_runs_compose_tautology :
    let f : Formula := binary .implies (var "A") (binary .and (var "A") (const true))
    let g : Formula := binary .or (neg (var "A")) (binary .and (var "A") (const true))
    (f.simplify Rule.catalog 1).result = g ∧ (f.simplify Rule.catalog 3).result = const true ∧
      (g.simplify Rule.catalog 2).result = const true ∧
      (f.simplify Rule.catalog 1).steps ++ (g.simplify Rule.catalog 2).steps =
        (f.simplify Rule.catalog 3).steps ∧
      (f.simplify Rule.catalog 1).steps <+: (f.simplify Rule.catalog 3).steps ∧
      (Simplification.allSteps Rule.catalog f).length = 3 ∧
      ((f.simplify Rule.catalog 3).events 3 f).filter (·.level = .warning) = [.stopped 3 "True"] ∧
      ((f.simplify Rule.catalog 4).events 4 f).filter (·.level = .warning) = [] := by
  intro f g
  obtain ⟨hcompose, hfront, hcap⟩ := f.capped_runs_compose Rule.catalog
  have hone : (f.simplify Rule.catalog 1).result = g := by decide
  have hthree : (f.simplify Rule.catalog 3).result = const true := by decide
  obtain ⟨hresult, hsteps⟩ := hcompose 1 2 (by decide) (by decide)
  rw [hone] at hresult hsteps
  -- four allow no more steps than three
  have hlength : (Simplification.allSteps Rule.catalog f).length = 3 := by
    obtain ⟨-, hcount, -, -⟩ := hcap 4
    have hfour : (f.simplify Rule.catalog 4).steps.length = 3 := by decide
    rw [hfour] at hcount
    omega
  obtain ⟨-, -, -, hwarned⟩ := hcap 3
  obtain ⟨-, -, -, hsilent⟩ := hcap 4
  rw [hlength, hthree] at hwarned
  rw [hlength] at hsilent
  exact ⟨hone, hthree, hresult.trans hthree, hsteps, hfront 1 3 (by decide), hlength, hwarned,
    hsilent⟩

end Propositional
