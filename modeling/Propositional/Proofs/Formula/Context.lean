import Propositional.Formula.Traversal

/-!
# One place in a formula

A context is a formula with one place left open. Filling the place gives a formula that has the
filling there, and all other nodes are those of the context.

* `preOrder_fill`: where the open place is in the walk from the root down. The nodes that come
  `earlier` are the ancestors of the place and all that is to the left of it.
-/

namespace Propositional

/-- A formula with an open place. -/
inductive Context where
  | hole
  | neg (c : Context)
  | left (op : Connective) (c : Context) (r : Formula)
  | right (op : Connective) (l : Formula) (c : Context)

namespace Context

open Formula

/-- The formula with `a` at the open place. -/
def fill (a : Formula) : Context → Formula
  | hole => a
  | neg c => .neg (c.fill a)
  | left op c r => .binary op (c.fill a) r
  | right op l c => .binary op l (c.fill a)

/-- The nodes that a walk from the root meets before the open place, if `a` is there. -/
def earlier (a : Formula) : Context → List Formula
  | hole => []
  | neg c => .neg (c.fill a) :: c.earlier a
  | left op c r => .binary op (c.fill a) r :: c.earlier a
  | right op l c => .binary op l (c.fill a) :: (preOrder [l] ++ c.earlier a)

/-- The nodes that a walk from the root meets when it is through with the open place. -/
def later : Context → List Formula
  | hole => []
  | neg c => c.later
  | left _ c r => c.later ++ preOrder [r]
  | right _ _ c => c.later

/-- **The walk over a filled context**: what comes before the place, the filling, and the rest. -/
theorem preOrder_fill (c : Context) (a : Formula) :
    preOrder [c.fill a] = c.earlier a ++ preOrder [a] ++ c.later := by
  induction c with
  | hole => simp [fill, earlier, later]
  | neg c ih => simp [fill, earlier, later, ih]
  | left op c r ih => simp [fill, earlier, later, ih]
  | right op l c ih => simp [fill, earlier, later, ih]

end Context

end Propositional
