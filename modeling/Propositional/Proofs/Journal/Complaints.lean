import Propositional.Journal.Basic
import Propositional.Journal.Logged
import Propositional.Journal.Stages

/-!
# What the stages complain of

The complaints among the events are the warnings and the errors: what a journal writes that is asked
for nothing more. A stage notes what it does as often as it likes, an illegal character or a step at
a time, and complains of nothing. Only a simplification complains, of having been stopped.

* `Event.complaints`: they go through a sequence of work (`complaints_bind`).
* `Event.WarnsOf`: these are the warnings, and there is no error.
* `complaints_events`, `complaints_parseEvents`: the complaints of each stage.
-/

namespace Propositional

variable {e : Event} {l r ws events : List Event}

theorem Level.admits_warning_iff {level : Level} :
    warning.admits level = true ↔ level = warning ∨ level = error := by
  cases level <;> decide

namespace Event

/-! ## Among the events -/

/-- What a journal with its threshold at a warning writes. -/
def complaints (events : List Event) : List Event :=
  events.filter fun e => Level.warning.admits e.level

theorem mem_complaints :
    e ∈ complaints events ↔ e ∈ events ∧ (e.level = .warning ∨ e.level = .error) :=
  List.mem_filter.trans (and_congr_right fun _ => Level.admits_warning_iff)

theorem complaints_append : complaints (l ++ r) = complaints l ++ complaints r :=
  List.filter_append ..

theorem complaints_cons_of_debug (h : e.level = .debug) : complaints (e :: l) = complaints l :=
  List.filter_cons_of_neg (by rw [h]; decide)

theorem complaints_cons_of_info (h : e.level = .info) : complaints (e :: l) = complaints l :=
  List.filter_cons_of_neg (by rw [h]; decide)

/-- The events tell of no error, and these are their warnings. -/
structure WarnsOf (events warnings : List Event) : Prop where
  no_error : ∀ e ∈ events, e.level ≠ .error
  filter_eq : events.filter (·.level = .warning) = warnings

/-- If only warnings are complained of, then these are the warnings, and there is no error. -/
theorem warnsOf_of_complaints (h : complaints events = ws) (hws : ∀ e ∈ ws, e.level = .warning) :
    WarnsOf events ws where
  no_error e he herror := by
    have hmem : e ∈ ws := h ▸ mem_complaints.mpr ⟨he, Or.inr herror⟩
    rw [hws e hmem] at herror
    cases herror
  filter_eq := by
    have hcomplaints :
        (complaints events).filter (·.level = .warning) = events.filter (·.level = .warning) := by
      rw [complaints, List.filter_filter]
      refine List.filter_congr fun e _ => ?_
      cases e.level <;> rfl
    rw [← hcomplaints, h]
    exact List.filter_eq_self.mpr fun e he => decide_eq_true (hws e he)

end Event

open Event

/-- What comes after work without a complaint complains on its own. -/
theorem Logged.complaints_bind {ε α β : Type} {x : Logged ε α} (h : complaints x.events = [])
    (f : α → Logged ε β) :
    complaints (x >>= f).events =
      match x.outcome with
      | .ok a => complaints (f a).events
      | .error _ => [] := by
  split
  · next a ha => rw [events_bind_ok ha, complaints_append, h, List.nil_append]
  · next e he => rw [events_bind_error he, h]

/-! ## Stage by stage -/

theorem Canonical.complaints_events (caseSensitive : Bool) (text : List Char)
    (outcome : Except UnknownWord Canonical) :
    complaints (Canonical.events caseSensitive text outcome) = [] := by
  cases caseSensitive <;> cases outcome <;> rfl

/-- An illegal character is noted without complaint, however many there are. -/
theorem Token.complaints_events (ts : List Token) : complaints (Token.events ts) = [] := by
  rw [complaints, List.filter_eq_nil_iff]
  intro e he
  obtain ⟨t, -, rfl⟩ := List.mem_map.mp he
  exact Bool.false_ne_true

theorem Violation.complaints_events (text : List Char) (outcome : Option Violation) :
    complaints (Violation.events text outcome) = [] := by
  unfold Violation.events
  rw [List.cons_append, complaints_cons_of_debug rfl, complaints_append]
  have hscan : complaints
      (if text.all Text.isBlank then [] else Token.events (Token.scan text)) = [] := by
    split
    · rfl
    · exact Token.complaints_events _
  rw [hscan]
  cases outcome <;> rfl

theorem Formula.complaints_parseEvents (text : List Char) (maxDepth : Int) :
    complaints (Formula.parseEvents text maxDepth) = [] := by
  rw [Formula.parseEvents, complaints_cons_of_debug rfl]
  split
  · rw [complaints_cons_of_debug rfl]
    split <;> rfl
  · exact Token.complaints_events _
  · rfl

namespace Simplification

/-- A run that was stopped is something to complain of. -/
def complaints (cap : Int) (run : Simplification) : List Event :=
  if run.stopped then [.stopped cap run.result.render] else []

/-- The steps are noted without complaint, however many there are. -/
theorem complaints_events (cap : Int) (f : Formula) (run : Simplification) :
    Event.complaints (run.events cap f) = run.complaints cap := by
  have hsteps : Event.complaints (run.steps.map fun step =>
      .ruleApplied step.rule.name step.before.render step.after.render) = [] := by
    rw [Event.complaints, List.filter_eq_nil_iff]
    intro e he
    obtain ⟨step, -, rfl⟩ := List.mem_map.mp he
    exact Bool.false_ne_true
  rw [events, List.cons_append, complaints_cons_of_debug rfl, complaints_append, hsteps,
    List.nil_append, complaints]
  cases run.stopped <;> rfl

theorem level_of_mem_complaints {cap : Int} {run : Simplification} (h : e ∈ run.complaints cap) :
    e.level = .warning := by
  rw [complaints] at h
  split at h
  · rw [List.mem_singleton.mp h]
    rfl
  · cases h

end Simplification

theorem TruthTable.complaints_events (columns : List Formula)
    (outcome : Except Unassigned TruthTable) :
    complaints (TruthTable.events columns outcome) = [] := by
  cases outcome <;> rfl

end Propositional
