import Propositional.Proofs.Inquiry.Stages
import Propositional.Proofs.Simplification.Fixpoint

/-!
# When a simplification is not stopped

A run is stopped only if its cap is below the weight of the formula. The check bounds the weight of
what is let through, so with a cap from that bound on no inquiry is ever stopped. The default cap is
far above it.

* `Inquiry.stopped_of_mem_simplify`, `Inquiry.stopped_of_mem_simplifyAndTabulate`: only a
  simplification that was stopped says so.
* `Settings.stopped_simplified_eq_false`: what is read is never stopped, if the cap leaves room.
* `simplify_ends_at_normal_form`: the length of a run, its end, and the settings under which every
  inquiry comes to it.
-/

namespace Propositional

variable {s : Settings} {text : String} {f : Formula} {cap : Int} {result : String}

/-- A run that complains was stopped. -/
theorem Simplification.stopped_of_mem_complaints {run : Simplification} {n : Int} {e : Event}
    (h : e ∈ run.complaints n) : run.stopped = true := by
  rw [complaints] at h
  split at h
  · assumption
  · cases h

/-- A run says that it was stopped only if it was. -/
theorem Simplification.stopped_of_mem_events {run : Simplification} {n : Int}
    (h : Event.stopped cap result ∈ run.events n f) : run.stopped = true := by
  refine stopped_of_mem_complaints (e := .stopped cap result) (n := n) ?_
  rw [← complaints_events n f]
  exact Event.mem_complaints.mpr ⟨h, Or.inl rfl⟩

namespace Inquiry

open Event

/-! ## Who says that it was stopped -/

/-- **Only a simplification that was stopped says so.** -/
theorem stopped_of_mem_simplify (h : Event.stopped cap result ∈ (simplify s text).events) :
    ∃ f, (read s text).outcome = .ok (.ok f) ∧ (s.simplified f).stopped = true := by
  have hmem := mem_complaints.mpr ⟨h, Or.inl rfl⟩
  rw [complaints_simplify] at hmem
  cases hread : (read s text).outcome with
  | error e =>
    rw [hread] at hmem
    cases hmem
  | ok answer =>
    rw [hread] at hmem
    cases answer with
    | error r => cases List.mem_singleton.mp hmem
    | ok f => exact ⟨f, rfl, Simplification.stopped_of_mem_complaints hmem⟩

theorem stopped_of_mem_simplifyAndTabulate
    (h : Event.stopped cap result ∈ (simplifyAndTabulate s text).events) :
    ∃ f, (read s text).outcome = .ok (.ok f) ∧ (s.simplified f).stopped = true := by
  have hmem := mem_complaints.mpr ⟨h, Or.inl rfl⟩
  rw [complaints_simplifyAndTabulate, ← complaints_simplify] at hmem
  exact stopped_of_mem_simplify (mem_complaints.mp hmem).1

end Inquiry

/-! ## Settings that leave room -/

/-- **What keeps to the limits is never stopped**, if the cap is above what they allow. -/
theorem Settings.stopped_simplified_eq_false
    (hcap : 3 * s.limits.operands + s.limits.operators - 2 ≤ s.maxSteps)
    (h : s.limits.Admits f) : (s.simplified f).stopped = false := by
  have hweight := f.weight_le
  have hoperands := h.operands
  have hoperators := h.operators
  unfold simplified
  split
  · exact Simplification.stopped_eq_false_of_weight_le (by omega)
  · rfl

/-- **A simplification ends, and where it ends no law applies.** For every list of laws, cap and
formula, where the weight is the number of nodes with two more for each implication,

* every step makes the weight smaller, so that there are fewer steps than the weight says;
* with a cap from the weight on, the run is not stopped and does not say so, no law of the list
  applies at any node of its result, and a further run with these laws and any cap above zero does
  nothing.

So, with settings whose cap on steps is at least three times the limit on operands and once that on
operators, less two, no inquiry about any text is stopped. The default settings are like that. -/
theorem simplify_ends_at_normal_form :
    (∀ (rules : List Rule) (cap : Int) (f : Formula),
      (∀ step ∈ (f.simplify rules cap).steps, step.after.weight < step.before.weight) ∧
        (f.simplify rules cap).steps.length ≤ f.weight - 1 ∧
        ((f.weight : Int) ≤ cap →
          (f.simplify rules cap).stopped = false ∧
            (∀ n result, Event.stopped n result ∉
              (f.simplify rules cap).events cap f) ∧
            (∀ rule ∈ rules, ∀ g ∈ Formula.preOrder [(f.simplify rules cap).result],
              rule.apply g = none) ∧
            ∀ cap' : Int, 1 ≤ cap' →
              (f.simplify rules cap).result.simplify rules cap' =
                ⟨(f.simplify rules cap).result, [], false⟩)) ∧
      (∀ s : Settings, 3 * s.limits.operands + s.limits.operators - 2 ≤ s.maxSteps →
        ∀ text : String,
          (∀ n result, Event.stopped n result ∉ (Inquiry.simplify s text).events) ∧
            (∀ n result, Event.stopped n result ∉ (Inquiry.simplifyAndTabulate s text).events) ∧
            (∀ a, (Inquiry.simplify s text).outcome = .ok (.ok a) →
              a.simplification.stopped = false) ∧
            ∀ a, (Inquiry.simplifyAndTabulate s text).outcome = .ok (.ok a) →
              a.simplification.stopped = false) ∧
      3 * ({} : Settings).limits.operands + ({} : Settings).limits.operators - 2 = 238 ∧
      ({} : Settings).maxSteps = 1000 := by
  refine ⟨fun rules cap f => ⟨fun step hstep => ?_, ?_, fun hcap => ?_⟩, fun s hcap text => ?_,
    by decide, by decide⟩
  · have hfirst := Simplification.firstOf_of_mem_steps hstep
    exact Rule.weight_lt_of_applyFirst (Rule.applyFirst_of_firstOf hfirst).2
  · exact Nat.le_sub_one_of_lt (Simplification.length_steps_lt_weight rules cap.toNat f)
  · have hstopped : (f.simplify rules cap).stopped = false :=
      Simplification.stopped_eq_false_of_weight_le (by omega)
    have hnormal : Simplification.IsNormal rules (f.simplify rules cap).result :=
      Simplification.isNormal_of_run hstopped
    refine ⟨hstopped, fun n result h => ?_, hnormal, fun cap' hcap' => ?_⟩
    · exact absurd (Simplification.stopped_of_mem_events h) (by simp [hstopped])
    · exact Simplification.run_of_isNormal hnormal (by omega)
  · have hroom {f : Formula} (h : (Inquiry.read s text).outcome = .ok (.ok f)) :
        (s.simplified f).stopped = false :=
      s.stopped_simplified_eq_false hcap (Inquiry.admits_of_read h)
    refine ⟨fun n result h => ?_, fun n result h => ?_, fun a h => ?_, fun a h => ?_⟩
    · obtain ⟨f, hread, hstopped⟩ := Inquiry.stopped_of_mem_simplify h
      exact absurd hstopped (by simp [hroom hread])
    · obtain ⟨f, hread, hstopped⟩ := Inquiry.stopped_of_mem_simplifyAndTabulate h
      exact absurd hstopped (by simp [hroom hread])
    · rw [Inquiry.outcome_simplify] at h
      obtain ⟨f, hread, rfl⟩ := Inquiry.map_map_eq_ok.mp h
      exact hroom hread
    · rw [Inquiry.outcome_simplifyAndTabulate] at h
      obtain ⟨f, hread, rfl⟩ := Inquiry.map_map_eq_ok.mp h
      exact hroom hread

/-- `A➔A` has the weight five. Two laws take it to the constant in two steps, where both come to
rest, and with the default settings nobody is told that it was stopped. -/
theorem simplify_ends_at_normal_form_tautology :
    let f : Formula := .binary .implies (.var "A") (.var "A")
    let run := f.simplify [.complement, .implicationElimination] 5
    f.weight = 5 ∧ run.result = .const true ∧ run.steps.length ≤ 4 ∧ run.stopped = false ∧
      run.result.simplify [.complement, .implicationElimination] 1 = ⟨run.result, [], false⟩ ∧
      ∀ n result, Event.stopped n result ∉ (Inquiry.simplify {} "A -> A").events := by
  intro f run
  have hweight : f.weight = 5 := by decide +kernel
  obtain ⟨-, hlength, hend⟩ :=
    simplify_ends_at_normal_form.1 [.complement, .implicationElimination] 5 f
  obtain ⟨hstopped, -, -, hagain⟩ := hend (by rw [hweight]; decide)
  rw [hweight] at hlength
  exact ⟨hweight, by decide +kernel, hlength, hstopped, hagain 1 (by decide),
    (simplify_ends_at_normal_form.2.1 {} (by decide) "A -> A").1⟩

end Propositional
