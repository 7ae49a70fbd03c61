import Propositional.Proofs.Inquiry.Stages
import Propositional.Proofs.Spelling.Misread
import Propositional.Proofs.Spelling.Segmentation
import Propositional.Proofs.Violation.Place

/-!
# What keeps an inquiry from an answer

Each stage of an inquiry relies on the one before. A violation is located in the canonical text, and
the offsets know every place of that; what passes the check is parsed, and its table has a value in
every cell. So the only thing that can go wrong is that a text has no canonical spelling.

* `exists_offset`: every place of a canonical text is a place of the given one.
* `failure?_read`: a text is read or refused unless a word in it is misread.
* `failure?_inquiries`: and so are the three inquiries answered.
* `simplify_dotless_implies`: a text with such a word.
-/

namespace Propositional

open Outcome

variable {s : Settings} {text : String} {c : Canonical} {v : Violation} {e : UnknownWord} {p : Nat}

/-- Every place of a canonical text, its end included, is a place of the given text. -/
theorem Canonical.exists_offset {caseSensitive : Bool} {text : List Char}
    (h : ofText caseSensitive text = .ok c) (hp : p ≤ c.text.length) :
    ∃ q, c.offsets[p]? = some q := by
  have hlength := (segments_of_ofText h).1.length_offsets
  exact ⟨_, List.getElem?_eq_getElem (by omega)⟩

namespace Inquiry

theorem read_eq_unknownWord (h : Canonical.ofText s.caseSensitive text.toList = .error e) :
    (read s text).outcome = .error (.unknownWord e) := by
  have hcanonical : (canonical s text).outcome = .error (.unknownWord e) := by
    simp only [canonical, h]
    rfl
  rw [read, Logged.outcome_bind, hcanonical]
  rfl

/-- A violation in a canonical text can be located in the given text. -/
theorem exists_moved (hc : Canonical.ofText s.caseSensitive text.toList = .ok c)
    (hcheck : Violation.check s.limits c.text = some v) :
    ∃ moved, v.relocate (fun i => c.offsets[i]?) = some moved :=
  Violation.exists_relocate fun _ hp =>
    Canonical.exists_offset hc ((Violation.blamedIn_of_check hcheck).position_le hp)

/-- **A text with a canonical spelling is read or refused.** -/
theorem exists_read_of_ofText (hc : Canonical.ofText s.caseSensitive text.toList = .ok c) :
    ∃ answer, (read s text).outcome = .ok answer := by
  cases hcheck : Violation.check s.limits c.text with
  | none =>
    obtain ⟨f, hf⟩ := exists_read_of_check hc hcheck
    exact ⟨.ok f, hf⟩
  | some v =>
    obtain ⟨moved, hmoved⟩ := exists_moved hc hcheck
    exact ⟨_, read_eq_refused hc hcheck hmoved⟩

/-- The fault of a text, if it has one: a word that is read as a connective and is not spelled like
it. -/
def fault? (s : Settings) (text : String) : Option Fault :=
  (((Text.words (Canonical.folded s.caseSensitive text.toList)).find? fun word =>
    Spelling.Misread word).map .ofWord).map .unknownWord

theorem failure?_read (s : Settings) (text : String) :
    failure? (read s text).outcome = fault? s text := by
  rw [fault?, ← Canonical.failure?_ofText]
  cases hc : Canonical.ofText s.caseSensitive text.toList with
  | error e => exact congrArg failure? (read_eq_unknownWord hc)
  | ok c =>
    obtain ⟨answer, hanswer⟩ := exists_read_of_ofText hc
    exact congrArg failure? hanswer

/-- **An inquiry is answered unless a word is misread.** Each of the three inquiries about any text,
with any settings, fails exactly if a word of the text is read as a connective and is not spelled
like it, and the first such word is the fault. No violation is without a place, nothing that passes
the check is refused by the parser, and no variable is without a value. -/
theorem failure?_inquiries (s : Settings) (text : String) :
    failure? (simplify s text).outcome = fault? s text ∧
      failure? (simplifyAndTabulate s text).outcome = fault? s text ∧
        failure? (tabulate s text).outcome = fault? s text := by
  rw [outcome_simplify, outcome_simplifyAndTabulate, outcome_tabulate, failure?_map, failure?_map,
    failure?_map]
  exact ⟨failure?_read s text, failure?_read s text, failure?_read s text⟩

/-- A word with a dotless `ı` is read as `implies`, and is not found among the spellings. -/
theorem simplify_dotless_implies :
    (simplify {} "ımplies").outcome = .error (.unknownWord ⟨"ımplies"⟩) := by
  have hread : (read {} "ımplies").outcome = .error (.unknownWord ⟨"ımplies"⟩) :=
    read_eq_unknownWord (by decide +kernel)
  rw [outcome_simplify, hread]
  rfl

end Inquiry

end Propositional
