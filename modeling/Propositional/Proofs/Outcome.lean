/-!
# When work succeeds

Work that can fail succeeds exactly if its parts do. One equivalence for each way of putting work
together, so that a success can be taken apart. Where it matters what went wrong, `failure?` keeps
that and forgets the result.
-/

namespace Propositional.Outcome

variable {α β ε ε' : Type}

theorem bind_eq_ok {x : Except ε α} {g : α → Except ε β} {b : β} :
    x.bind g = .ok b ↔ ∃ a, x = .ok a ∧ g a = .ok b := by
  cases x <;> simp [Except.bind]

theorem map_eq_ok {x : Except ε α} {g : α → β} {b : β} :
    x.map g = .ok b ↔ ∃ a, x = .ok a ∧ g a = b := by
  cases x <;> simp [Except.map]

@[simp] theorem mapError_ok (g : ε → ε') (a : α) :
    (Except.ok a : Except ε α).mapError g = .ok a := rfl

@[simp] theorem mapError_error (g : ε → ε') (e : ε) :
    (Except.error e : Except ε α).mapError g = .error (g e) := rfl

theorem mapError_eq_ok {x : Except ε α} {g : ε → ε'} {a : α} :
    x.mapError g = .ok a ↔ x = .ok a := by
  cases x <;> simp

theorem mapM_eq_ok {g : α → Except ε β} {h : α → β} {as : List α} (hg : ∀ a ∈ as, g a = .ok (h a)) :
    as.mapM g = .ok (as.map h) := by
  induction as with
  | nil => rfl
  | cons a as ih =>
    rw [List.mapM_cons, hg a List.mem_cons_self, ih fun b hb => hg b (List.mem_cons_of_mem a hb)]
    rfl

/-- What went wrong, if something did. -/
def failure? : Except ε α → Option ε
  | .ok _ => none
  | .error e => some e

theorem failure?_map (g : α → β) (x : Except ε α) : failure? (x.map g) = failure? x := by
  cases x <;> rfl

end Propositional.Outcome
