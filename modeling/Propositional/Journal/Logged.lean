import Propositional.Journal.Event

/-!
# Work that leaves events

`Logged ε α` is the outcome of some work, a value or an error, with the events that it has left.
The events before an error stay.

* `outcome_bind`: the outcome of a sequence of work is that of its parts, up to the first error.
* `events_bind_ok`, `events_bind_error`: a sequence of work leaves the events of its parts in order.
-/

namespace Propositional

/-- Some work that is done: what came of it, and its events in their order. -/
structure Logged (ε α : Type) where
  outcome : Except ε α
  events : List Event

namespace Logged

variable {ε α β : Type}

/-- A value without any event. -/
protected def pure (a : α) : Logged ε α := ⟨.ok a, []⟩

/-- One piece of work after another. After an error the other is not begun. -/
protected def bind (x : Logged ε α) (f : α → Logged ε β) : Logged ε β :=
  match x.outcome with
  | .ok a => ⟨(f a).outcome, x.events ++ (f a).events⟩
  | .error e => ⟨.error e, x.events⟩

instance : Monad (Logged ε) where
  pure := Logged.pure
  bind := Logged.bind

/-- Work that only leaves an event. -/
def note (event : Event) : Logged ε Unit := ⟨.ok (), [event]⟩

/-- The work with its error seen as another one. -/
def mapError {ε' : Type} (f : ε → ε') (x : Logged ε α) : Logged ε' α :=
  ⟨x.outcome.mapError f, x.events⟩

theorem outcome_bind (x : Logged ε α) (f : α → Logged ε β) :
    (x >>= f).outcome = x.outcome.bind fun a => (f a).outcome := by
  change (Logged.bind x f).outcome = _
  unfold Logged.bind
  cases x.outcome <;> rfl

@[simp] theorem outcome_pure (a : α) : (pure a : Logged ε α).outcome = .ok a := rfl

@[simp] theorem outcome_note (event : Event) : (note event : Logged ε Unit).outcome = .ok () := rfl

@[simp] theorem events_pure (a : α) : (pure a : Logged ε α).events = [] := rfl

@[simp] theorem events_note (event : Event) : (note event : Logged ε Unit).events = [event] := rfl

theorem events_bind_ok {x : Logged ε α} {a : α} (h : x.outcome = .ok a) (f : α → Logged ε β) :
    (x >>= f).events = x.events ++ (f a).events := by
  change (Logged.bind x f).events = _
  simp [Logged.bind, h]

theorem events_bind_error {x : Logged ε α} {e : ε} (h : x.outcome = .error e)
    (f : α → Logged ε β) : (x >>= f).events = x.events := by
  change (Logged.bind x f).events = _
  simp [Logged.bind, h]

end Logged

end Propositional
