import Propositional.Proofs.Token.Slice
import Propositional.Proofs.Violation.Agreement

/-!
# Where a violation is located

A violation that is located blames a token of the text, or the end of the text.

* `BlamedIn`: what can be blamed in a text. `blamedIn_of_check` says that the check blames nothing
  else.
* `BlamedIn.position_le`: the position is in the text or at its end.
* `exists_relocate`: so it can be looked up wherever every such position is known.
-/

namespace Propositional.Violation

variable {text : List Char} {ts : List Token} {limits : Limits} {v : Violation} {p n : Nat}

/-- The faults of a text, with the places that can be blamed for them. -/
inductive BlamedIn (text : List Char) : Violation → Prop
  | blank : BlamedIn text (.blank 0)
  | token (t : Token) (ht : t.FoundIn text) : BlamedIn text (.misplaced t.text t.start)
  | unopened (n : Nat) (hn : text[n]? = some ')') : BlamedIn text (.missing '(' n)
  | unclosed : BlamedIn text (.missing ')' text.length)
  | unexpectedEnd : BlamedIn text (.unexpectedEnd text.length)
  | tooBig (count : Nat) (limit : Int) : BlamedIn text (.tooBig count limit)

/-- A scan ends at one of the tokens. -/
theorem Scan.run_eq_error {s : Scan} (h : s.run ts = .error v) :
    ∃ t ∈ ts, v = .misplaced t.text t.start ∨ t.kind = .closeParen ∧ v = .missing '(' t.start := by
  induction ts generalizing s with
  | nil => cases h
  | cons t ts ih =>
    rw [run] at h
    split at h
    · obtain ⟨u, hu, hv⟩ := ih h
      exact ⟨u, List.mem_cons_of_mem t hu, hv⟩
    · rename_i v' hstep
      obtain rfl := Except.error.inj h
      exact ⟨t, List.mem_cons_self, step_eq_error hstep⟩

theorem blamedIn_of_ofStructure (h : ofStructure (Token.scan text) text.length = some v) :
    BlamedIn text v := by
  unfold ofStructure at h
  split at h
  · rename_i s _
    unfold Scan.atEnd at h
    split at h
    · obtain rfl := Option.some.inj h
      exact .unclosed
    · obtain ⟨-, ⟨⟩⟩ := Option.ite_none_right_eq_some.mp h
      exact .unexpectedEnd
  · rename_i v' hrun
    obtain rfl := Option.some.inj h
    obtain ⟨t, ht, rfl | ⟨hk, rfl⟩⟩ := Scan.run_eq_error hrun
    · exact .token t (Token.foundIn_of_mem_scan ht)
    · exact .unopened t.start ((Token.foundIn_of_mem_scan ht).getElem?_of_closeParen hk)

/-- **The check blames a token of the text or its end**, if it blames a place. -/
theorem blamedIn_of_check (h : check limits text = some v) : BlamedIn text v := by
  unfold check at h
  split at h
  · obtain rfl := Option.some.inj h
    exact .blank
  · simp only [Option.orElse_eq_orElse, Option.orElse_eq_or, Option.or_eq_some_iff] at h
    rcases h with h | ⟨-, h | ⟨-, h⟩⟩
    · obtain ⟨t, ht, rfl⟩ := Option.map_eq_some_iff.mp h
      exact .token t (Token.foundIn_of_mem_scan (List.mem_of_find?_eq_some ht))
    · exact blamedIn_of_ofStructure h
    · obtain ⟨count, limit, rfl⟩ := tooBig_of_ofSize h
      exact .tooBig count limit

theorem BlamedIn.position_le (h : BlamedIn text v) (hp : v.position? = some p) :
    p ≤ text.length := by
  cases h with
  | blank =>
    obtain rfl := Option.some.inj hp
    exact Nat.zero_le _
  | token t ht =>
    obtain rfl := Option.some.inj hp
    exact Nat.le_of_lt ht.start_lt
  | unopened n hn =>
    obtain rfl := Option.some.inj hp
    exact Nat.le_of_lt (List.getElem?_eq_some_iff.mp hn).1
  | unclosed | unexpectedEnd =>
    obtain rfl := Option.some.inj hp
    exact Nat.le_refl _
  | tooBig => cases hp

/-- A violation can be located elsewhere if its position is known there. -/
theorem exists_relocate {f : Nat → Option Nat}
    (h : ∀ p, v.position? = some p → ∃ q, f p = some q) : ∃ moved, v.relocate f = some moved := by
  cases v with
  | tooBig => exact ⟨_, rfl⟩
  | blank p | unexpectedEnd p | misplaced _ p | missing _ p =>
    obtain ⟨q, hq⟩ := h p rfl
    exact ⟨_, by rw [relocate, hq]; rfl⟩

end Propositional.Violation
