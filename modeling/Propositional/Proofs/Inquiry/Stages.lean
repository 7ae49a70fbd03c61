import Mathlib.Control.Monad.Basic
import Propositional.Inquiry.Basic
import Propositional.Proofs.Journal.Complaints
import Propositional.Proofs.Outcome
import Propositional.Proofs.Simplification.Leaves
import Propositional.Proofs.Simplification.Refinement
import Propositional.Proofs.Table.Rows
import Propositional.Proofs.Violation.Size

/-!
# What the stages of an inquiry come to

All three inquiries read the text first, and once it is read nothing can fail. So an inquiry is
answered exactly if its text is read as a formula, and its answer is a function of the settings and
of the formula.

* `read_eq_ok_iff`: a text is read as `f` if its canonical spelling passes the check and is parsed
  as `f`. Passing the check is enough for there to be such an `f` (`exists_read_of_check`), because
  the settings keep the limit on operators below the limit on the depth.
* `read_eq_refused`: a violation that can be located is the reason for a refusal.
* `outcome_simplify`, `outcome_simplifyAndTabulate`, `outcome_tabulate`: the inquiries after
  reading.
* `complaints_read`, `complaints_simplify`, `complaints_simplifyAndTabulate`, `complaints_tabulate`:
  what they complain of, which is a refusal, or a simplification that was stopped.
-/

namespace Propositional

namespace Settings

/-- What the settings make of a formula. -/
def simplified (s : Settings) (f : Formula) : Simplification :=
  if s.simplify then f.simplify Rule.catalog s.maxSteps else .unchanged f

/-- The table of a formula, as the settings ask for it. -/
def tabulated (s : Settings) (f : Formula) : TruthTable :=
  .ofFormula f s.hideIntermediate s.hide s.order

section Simplified

variable (s : Settings) (f : Formula) {x : String}

theorem refines_simplified : Formula.Refines (s.simplified f).result f := by
  unfold simplified
  split
  · exact Simplification.run_refines Rule.catalog s.maxSteps.toNat f
  · exact .refl f

theorem leafCount_simplified_le : (s.simplified f).result.leafCount ≤ f.leafCount := by
  unfold simplified
  split
  · exact Simplification.leafCount_run_le Rule.catalog s.maxSteps.toNat f
  · exact Nat.le_refl _

theorem mem_names_of_simplified :
    x ∈ Formula.names [(s.simplified f).result] → x ∈ Formula.names [f] := by
  unfold simplified
  split
  · exact Simplification.mem_names_of_run Rule.catalog s.maxSteps.toNat f
  · exact id

theorem length_names_simplified_le :
    (Formula.names [(s.simplified f).result]).length ≤ (Formula.names [f]).length :=
  (Formula.nodup_names _).length_le_of_subset fun _ hx => s.mem_names_of_simplified f hx

end Simplified

end Settings

namespace Inquiry

open Event Logged Outcome

variable {s : Settings} {text : String} {c : Canonical} {f : Formula} {v moved : Violation}

/-- What was made of a formula was made of one that was read. -/
theorem map_map_eq_ok {α β ε : Type} {x : Except Fault (Except ε α)} {g : α → β} {b : β} :
    x.map (Except.map g) = .ok (.ok b) ↔ ∃ a, x = .ok (.ok a) ∧ g a = b := by
  rw [map_eq_ok]
  constructor
  · rintro ⟨y, rfl, hy⟩
    obtain ⟨a, rfl, ha⟩ := map_eq_ok.mp hy
    exact ⟨a, rfl, ha⟩
  · rintro ⟨a, rfl, ha⟩
    exact ⟨.ok a, rfl, map_eq_ok.mpr ⟨a, rfl, ha⟩⟩

/-! ## Reading -/

theorem outcome_violation_of_none (h : Violation.check s.limits c.text = none) :
    (violation s c).outcome = .ok none := by
  simp only [violation, h]

theorem outcome_violation_of_some (h : Violation.check s.limits c.text = some v)
    (hmoved : v.relocate (fun i => c.offsets[i]?) = some moved) :
    (violation s c).outcome = .ok (some moved) := by
  simp only [violation, h, hmoved]

theorem outcome_canonical_of_ok (h : Canonical.ofText s.caseSensitive text.toList = .ok c) :
    (canonical s text).outcome = .ok c := by
  simp only [canonical, h]
  rfl

theorem read_eq_ok (hc : Canonical.ofText s.caseSensitive text.toList = .ok c)
    (hcheck : Violation.check s.limits c.text = none)
    (hparse : Formula.parse c.text s.maxDepth = .ok f) : (read s text).outcome = .ok (.ok f) := by
  have hparsed : (parsed s c).outcome = .ok f := by
    simp only [parsed, hparse]
    rfl
  rw [read, outcome_bind, outcome_canonical_of_ok hc]
  simp only [Except.bind]
  rw [outcome_bind, outcome_violation_of_none hcheck]
  simp only [Except.bind]
  rw [outcome_bind, hparsed]
  rfl

theorem read_eq_refused (hc : Canonical.ofText s.caseSensitive text.toList = .ok c)
    (hcheck : Violation.check s.limits c.text = some v)
    (hmoved : v.relocate (fun i => c.offsets[i]?) = some moved) :
    (read s text).outcome = .ok (.error ⟨moved.kind, moved.message s.language⟩) := by
  rw [read, outcome_bind, outcome_canonical_of_ok hc]
  simp only [Except.bind]
  rw [outcome_bind, outcome_violation_of_some hcheck hmoved]
  rfl

/-- Only a text that passes the check is read at all. -/
theorem check_of_read (h : (read s text).outcome = .ok (.ok f)) :
    ∃ c, Canonical.ofText s.caseSensitive text.toList = .ok c ∧
      Violation.check s.limits c.text = none ∧ Formula.parse c.text s.maxDepth = .ok f := by
  rw [read, outcome_bind] at h
  obtain ⟨c, hc, h⟩ := bind_eq_ok.mp h
  rw [outcome_bind] at h
  obtain ⟨found, hfound, h⟩ := bind_eq_ok.mp h
  refine ⟨c, mapError_eq_ok.mp hc, ?_⟩
  cases found with
  | some moved =>
    rw [outcome_bind, outcome_note] at h
    cases h
  | none =>
    rw [outcome_bind] at h
    obtain ⟨g, hg, h⟩ := bind_eq_ok.mp h
    cases h
    refine ⟨?_, mapError_eq_ok.mp hg⟩
    simp only [violation] at hfound
    split at hfound
    · assumption
    · split at hfound <;> cases hfound

/-- **A text is read as `f`** if its canonical spelling passes the check and is parsed as `f`. -/
theorem read_eq_ok_iff :
    (read s text).outcome = .ok (.ok f) ↔
      ∃ c, Canonical.ofText s.caseSensitive text.toList = .ok c ∧
        Violation.check s.limits c.text = none ∧ Formula.parse c.text s.maxDepth = .ok f :=
  ⟨check_of_read, fun ⟨_, hc, hcheck, hparse⟩ => read_eq_ok hc hcheck hparse⟩

/-- A text that passes the check is read as some formula. -/
theorem exists_read_of_check (hc : Canonical.ofText s.caseSensitive text.toList = .ok c)
    (hcheck : Violation.check s.limits c.text = none) :
    ∃ f, (read s text).outcome = .ok (.ok f) := by
  obtain ⟨f, hparse, -⟩ := parse_of_check s.operators_lt_maxDepth hcheck
  exact ⟨f, read_eq_ok hc hcheck hparse⟩

/-- What is read keeps to the limits of the settings. -/
theorem admits_of_read (h : (read s text).outcome = .ok (.ok f)) : s.limits.Admits f := by
  obtain ⟨c, -, hcheck, hparse⟩ := read_eq_ok_iff.mp h
  obtain ⟨g, hg, hadmits⟩ := parse_of_check s.operators_lt_maxDepth hcheck
  obtain rfl : g = f := Except.ok.inj (hg.symm.trans hparse)
  exact hadmits

/-! ## After reading -/

theorem outcome_simplification (s : Settings) (f : Formula) :
    (simplification s f).outcome = .ok (s.simplified f) := by
  unfold simplification Settings.simplified
  split <;> rfl

theorem outcome_table (s : Settings) (f : Formula) : (table s f).outcome = .ok (s.tabulated f) := by
  rw [table, TruthTable.build_columns_eq]
  rfl

/-- An inquiry comes to a refusal if reading does, and otherwise to what is done with the
formula. -/
theorem outcome_inquiry {α : Type} {start : Event}
    {next : Except Refusal Formula → Logged Fault (Except Refusal α)} {g : Formula → α}
    (hrefused : ∀ r, (next (.error r)).outcome = .ok (.error r))
    (haccepted : ∀ f, (next (.ok f)).outcome = .ok (.ok (g f))) :
    (note start >>= fun _ => read s text >>= next).outcome =
      (read s text).outcome.map (Except.map g) := by
  rw [outcome_bind, outcome_note]
  simp only [Except.bind]
  rw [outcome_bind]
  cases (read s text).outcome with
  | error e => rfl
  | ok answer =>
    cases answer with
    | error r => exact hrefused r
    | ok f => exact haccepted f

theorem outcome_simplify (s : Settings) (text : String) :
    (simplify s text).outcome =
      (read s text).outcome.map (Except.map fun f => ⟨text, s.simplified f⟩) := by
  refine outcome_inquiry (fun _ => rfl) fun f => ?_
  simp only
  rw [outcome_bind, outcome_simplification]
  rfl

theorem outcome_simplify_of_read (h : (read s text).outcome = .ok (.ok f)) :
    (simplify s text).outcome = .ok (.ok ⟨text, s.simplified f⟩) := by
  rw [outcome_simplify, h]
  rfl

theorem outcome_simplifyAndTabulate (s : Settings) (text : String) :
    (simplifyAndTabulate s text).outcome =
      (read s text).outcome.map (Except.map fun f =>
        ⟨⟨text, s.simplified f⟩, s.tabulated (s.simplified f).result⟩) := by
  refine outcome_inquiry (fun _ => rfl) fun f => ?_
  simp only
  rw [outcome_bind, outcome_simplification]
  simp only [Except.bind]
  rw [outcome_bind, outcome_table]
  rfl

theorem outcome_tabulate (s : Settings) (text : String) :
    (tabulate s text).outcome =
      (read s text).outcome.map (Except.map fun f => ⟨f, s.tabulated f⟩) := by
  refine outcome_inquiry (fun _ => rfl) fun f => ?_
  simp only
  rw [outcome_bind, outcome_table]
  rfl

/-! ## Complaints -/

/-- What an inquiry complains of, told from what was read and from the complaints about a
formula. -/
def complaintsAbout (ofFormula : Formula → List Event) :
    Except Fault (Except Refusal Formula) → List Event
  | .ok (.ok f) => ofFormula f
  | .ok (.error r) => [.refused r.message]
  | .error _ => []

/-- **Reading complains of a refusal**, in its words, and of nothing else. -/
theorem complaints_read (s : Settings) (text : String) :
    complaints (read s text).events = complaintsAbout (fun _ => []) (read s text).outcome := by
  rw [read, outcome_bind, complaints_bind (Canonical.complaints_events ..)]
  cases (canonical s text).outcome with
  | error e => rfl
  | ok c =>
    simp only [Except.bind]
    rw [outcome_bind, complaints_bind (Violation.complaints_events ..)]
    cases (violation s c).outcome with
    | error e => rfl
    | ok found =>
      cases found with
      | some moved => rfl
      | none =>
        simp only [Except.bind]
        rw [outcome_bind, complaints_bind (Formula.complaints_parseEvents ..)]
        cases (parsed s c).outcome <;> rfl

theorem complaints_simplification (s : Settings) (f : Formula) :
    complaints (simplification s f).events = (s.simplified f).complaints s.maxSteps := by
  unfold simplification Settings.simplified
  split
  · exact Simplification.complaints_events s.maxSteps f _
  · rfl

theorem complaints_table (s : Settings) (f : Formula) : complaints (table s f).events = [] :=
  TruthTable.complaints_events ..

/-- After reading, an inquiry complains only of what it does with the formula. -/
theorem complaints_inquiry {α : Type} {start : Event} {next : Except Refusal Formula → Logged Fault α}
    {ofFormula : Formula → List Event} (hstart : start.level = .info)
    (hrefused : ∀ r, complaints (next (.error r)).events = [])
    (haccepted : ∀ f, complaints (next (.ok f)).events = ofFormula f) :
    complaints (note start >>= fun _ => read s text >>= next).events =
      complaintsAbout ofFormula (read s text).outcome := by
  rw [complaints_bind (complaints_cons_of_info hstart)]
  have hread := complaints_read s text
  simp only [outcome_note]
  cases h : (read s text).outcome with
  | error e => rw [events_bind_error h, hread, h]; rfl
  | ok answer =>
    rw [events_bind_ok h, complaints_append, hread, h]
    cases answer with
    | error r => rw [hrefused]; rfl
    | ok f => exact haccepted f

theorem complaints_simplify (s : Settings) (text : String) :
    complaints (simplify s text).events =
      complaintsAbout (fun f => (s.simplified f).complaints s.maxSteps) (read s text).outcome := by
  refine complaints_inquiry rfl (fun _ => rfl) fun f => ?_
  simp only
  rw [events_bind_ok (outcome_simplification s f), complaints_append, complaints_simplification]
  exact List.append_nil _

theorem complaints_simplifyAndTabulate (s : Settings) (text : String) :
    complaints (simplifyAndTabulate s text).events =
      complaintsAbout (fun f => (s.simplified f).complaints s.maxSteps) (read s text).outcome := by
  refine complaints_inquiry rfl (fun _ => rfl) fun f => ?_
  simp only
  rw [events_bind_ok (outcome_simplification s f), complaints_append, complaints_simplification,
    complaints_bind (complaints_table ..), outcome_table]
  exact List.append_nil _

theorem complaints_tabulate (s : Settings) (text : String) :
    complaints (tabulate s text).events = complaintsAbout (fun _ => []) (read s text).outcome := by
  refine complaints_inquiry rfl (fun _ => rfl) fun f => ?_
  simp only
  rw [complaints_bind (complaints_table ..), outcome_table]
  rfl

end Inquiry

end Propositional
