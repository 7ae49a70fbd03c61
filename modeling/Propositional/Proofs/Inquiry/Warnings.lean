import Propositional.Proofs.Inquiry.Positions
import Propositional.Proofs.Inquiry.StepCap
import Propositional.Proofs.Simplification.Capped

/-!
# What an inquiry warns of

An inquiry that is answered leaves no error, and at most one warning: that its text was refused, or
that the cap on the steps was spent on the formula that was read. With the default settings there is
always a step to spare, so nothing that is accepted comes with a warning.

* `Settings.capWarning`: the warning of a cap, from the number of steps that the formula needs.
* `WarnsAsAnswered`: no error, and a warning for a refusal or for the formula.
* `warnings_of_answers`: the warnings of all three inquiries.
-/

namespace Propositional

open Event

variable {s : Settings} {text : String} {f : Formula} {e : Event}

namespace Settings

/-- The warning about a formula: with simplification on, that the cap leaves no step to spare. -/
def capWarning (s : Settings) (f : Formula) : List Event :=
  if s.simplify = true ∧ s.maxSteps ≤ (Simplification.allSteps Rule.catalog f).length then
    [.stopped s.maxSteps (s.simplified f).result.render]
  else []

theorem stopped_simplified_iff (s : Settings) (f : Formula) :
    (s.simplified f).stopped = true ↔
      s.simplify = true ∧ s.maxSteps ≤ (Simplification.allSteps Rule.catalog f).length := by
  unfold simplified
  split
  · next h => simp only [Simplification.stopped_simplify_iff, h, true_and]
  · next h => exact ⟨fun hstopped => Bool.noConfusion hstopped, fun hboth => absurd hboth.1 h⟩

theorem complaints_simplified (s : Settings) (f : Formula) :
    (s.simplified f).complaints s.maxSteps = s.capWarning f := by
  rw [Simplification.complaints, capWarning]
  simp only [stopped_simplified_iff]

/-- A cap that leaves room for all that the limits let through is never warned of. -/
theorem capWarning_eq_nil (hcap : 3 * s.limits.operands + s.limits.operators - 2 ≤ s.maxSteps)
    (h : s.limits.Admits f) : s.capWarning f = [] := by
  rw [← complaints_simplified, Simplification.complaints, s.stopped_simplified_eq_false hcap h]
  rfl

end Settings

namespace Inquiry

/-- The log of an inquiry has no error, and these warnings: that the text was refused, or what there
is to say about the formula that was read. -/
structure WarnsAsAnswered (s : Settings) (text : String) {α : Type}
    (inquiry : Logged Fault (Except Refusal α)) (ofFormula : Formula → List Event) : Prop where
  refused : ∀ r, inquiry.outcome = .ok (.error r) → WarnsOf inquiry.events [.refused r.message]
  accepted : ∀ a, inquiry.outcome = .ok (.ok a) →
    ∃ f, (read s text).outcome = .ok (.ok f) ∧ WarnsOf inquiry.events (ofFormula f)

theorem warnsAsAnswered_of_complaints {α : Type} {inquiry : Logged Fault (Except Refusal α)}
    {g : Formula → α} {ofFormula : Formula → List Event}
    (houtcome : inquiry.outcome = (read s text).outcome.map (Except.map g))
    (hcomplaints : complaints inquiry.events = complaintsAbout ofFormula (read s text).outcome)
    (hlevel : ∀ f, ∀ e ∈ ofFormula f, e.level = .warning) :
    WarnsAsAnswered s text inquiry ofFormula where
  refused r h := by
    rw [houtcome, map_map_eq_refused] at h
    rw [h] at hcomplaints
    refine warnsOf_of_complaints hcomplaints fun e he => ?_
    rw [List.mem_singleton.mp he]
    rfl
  accepted a h := by
    rw [houtcome] at h
    obtain ⟨f, hread, -⟩ := map_map_eq_ok.mp h
    rw [hread] at hcomplaints
    exact ⟨f, hread, warnsOf_of_complaints hcomplaints (hlevel f)⟩

/-- **Warnings tell exactly what is wrong.** An inquiry that is answered leaves no error. If its
text is refused, its only warning is the refusal, in the words of the answer. If it is accepted,
then

* an inquiry with a simplification warns that it was stopped, if simplification is on and the
  formula that was read needs at least as many steps as the cap allows, and of nothing otherwise;
* an inquiry that only tabulates warns of nothing;
* no inquiry with the default settings warns of anything. -/
theorem warnings_of_answers (text : String) :
    (∀ s : Settings,
      WarnsAsAnswered s text (simplify s text) s.capWarning ∧
        WarnsAsAnswered s text (simplifyAndTabulate s text) s.capWarning ∧
          WarnsAsAnswered s text (tabulate s text) fun _ => []) ∧
      (∀ a, (simplify {} text).outcome = .ok (.ok a) → WarnsOf (simplify {} text).events []) ∧
        (∀ a, (simplifyAndTabulate {} text).outcome = .ok (.ok a) →
          WarnsOf (simplifyAndTabulate {} text).events []) ∧
          ∀ a, (tabulate {} text).outcome = .ok (.ok a) → WarnsOf (tabulate {} text).events [] := by
  have hlevel (s : Settings) (f : Formula) : ∀ e ∈ s.capWarning f, e.level = .warning := fun _ he =>
    Simplification.level_of_mem_complaints (s.complaints_simplified f ▸ he)
  have hsimplify (s : Settings) : WarnsAsAnswered s text (simplify s text) s.capWarning :=
    warnsAsAnswered_of_complaints (outcome_simplify s text)
      (funext s.complaints_simplified ▸ complaints_simplify s text) (hlevel s)
  have hboth (s : Settings) : WarnsAsAnswered s text (simplifyAndTabulate s text) s.capWarning :=
    warnsAsAnswered_of_complaints (outcome_simplifyAndTabulate s text)
      (funext s.complaints_simplified ▸ complaints_simplifyAndTabulate s text) (hlevel s)
  have htabulate (s : Settings) : WarnsAsAnswered s text (tabulate s text) fun _ => [] :=
    warnsAsAnswered_of_complaints (outcome_tabulate s text) (complaints_tabulate s text)
      fun _ _ he => absurd he List.not_mem_nil
  -- the default limits let through nothing that needs as many steps as the default cap allows
  have hdefault {f : Formula} (hread : (read {} text).outcome = .ok (.ok f)) :
      ({} : Settings).capWarning f = [] :=
    Settings.capWarning_eq_nil (by decide) (admits_of_read hread)
  refine ⟨fun s => ⟨hsimplify s, hboth s, htabulate s⟩, fun a h => ?_, fun a h => ?_, fun a h => ?_⟩
  · obtain ⟨f, hread, hwarns⟩ := (hsimplify {}).accepted a h
    rwa [hdefault hread] at hwarns
  · obtain ⟨f, hread, hwarns⟩ := (hboth {}).accepted a h
    rwa [hdefault hread] at hwarns
  · obtain ⟨f, -, hwarns⟩ := (htabulate {}).accepted a h
    exact hwarns

/-- `A -> A` needs two steps. With a cap of two it is warned of, and with the default cap it is not.
The refusal of an illegal character is warned of, whatever is asked. -/
theorem warnings_of_answers_tautology :
    (simplify { maxSteps := 2 } "A -> A").events.filter (·.level = .warning) =
        [.stopped 2 "True"] ∧
      (simplify {} "A -> A").events.filter (·.level = .warning) = [] ∧
        (tabulate {} "#").events.filter (·.level = .warning) =
          [.refused "Illegal character '#' at position 0"] := by
  let f : Formula := .binary .implies (.var "a") (.var "a")
  obtain ⟨haccount, hdefault, -, -⟩ := warnings_of_answers "A -> A"
  have hc : Canonical.ofText false "A -> A".toList = .ok ⟨"a ➔ a".toList, [0, 1, 2, 4, 5, 6]⟩ := by
    decide +kernel
  have hcheck : Violation.check {} "a ➔ a".toList = none := by decide +kernel
  have hparse : Formula.parse "a ➔ a".toList Formula.defaultMaxDepth = .ok f := by decide +kernel
  refine ⟨?_, ?_, ?_⟩
  · have hread : (read { maxSteps := 2 } "A -> A").outcome = .ok (.ok f) :=
      read_eq_ok hc hcheck hparse
    obtain ⟨g, hg, hwarns⟩ :=
      (haccount { maxSteps := 2 }).1.accepted _ (outcome_simplify_of_read hread)
    obtain rfl : f = g := Except.ok.inj (Except.ok.inj (hread.symm.trans hg))
    have hsteps : (2 : Int) ≤ (Simplification.allSteps Rule.catalog f).length :=
      (Simplification.stopped_simplify_iff Rule.catalog 2 f).mp (by decide)
    rw [hwarns.filter_eq, Settings.capWarning, if_pos ⟨rfl, hsteps⟩]
    decide
  · have hread : (read {} "A -> A").outcome = .ok (.ok f) := read_eq_ok hc hcheck hparse
    exact (hdefault _ (outcome_simplify_of_read hread)).filter_eq
  · have hmoved : (Violation.misplaced ['#'] 0).relocate (fun i => [0, 1][i]?) =
        some (.misplaced ['#'] 0) := by decide
    have hrefused : (read {} "#").outcome =
        .ok (.error ⟨.invalidCharacter, "Illegal character '#' at position 0"⟩) :=
      read_eq_refused (c := ⟨"#".toList, [0, 1]⟩) (by decide +kernel) (by decide +kernel) hmoved
    have hanswer := outcome_tabulate {} "#"
    rw [hrefused] at hanswer
    exact (((warnings_of_answers "#").1 {}).2.2.refused _ hanswer).filter_eq

end Inquiry

end Propositional
