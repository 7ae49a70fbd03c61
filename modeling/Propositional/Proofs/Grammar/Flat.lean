import Propositional.Formula.Parse
import Propositional.Proofs.Grammar.Lalr

/-!
# The automaton of the flat grammar

The flat grammar has one nonterminal for all expressions. It is ambiguous, and a table of
precedences makes up for that; both are those of the Veritas specification (section 4.3). This
module works out its automaton.

* `flat`: the grammar with its table, and what the productions build.
* `Slot.awaiting`, `Slot.holding`, `complete`: the states, in which an operand is awaited or held
  somewhere, or a production has come to its end. `goto_awaiting_expr` and its companions say that
  there are no others.
* `follows_of_lookahead`, `exists_lookahead`: the lookaheads, from above and from below. States are
  reached in many ways, and so what follows an expression anywhere follows it everywhere.
* `acts_holding_reduce`, `acts_awaiting_shift`, `not_acts_holding`: the actions.
-/

namespace Propositional.Lalr

/-! ## The flat grammar -/

/-- The nonterminals: the augmented goal, the start, and `expr` for every expression. -/
inductive Nonterminal where
  | goal
  | start
  | expr
deriving DecidableEq

/-- The productions by their names, one for each connective and each constant. -/
inductive Production where
  | goal
  | start
  | binary (op : Connective)
  | negation
  | paren
  | name
  | truth (value : Bool)
deriving DecidableEq

/-- The symbol that stands for any expression. -/
abbrev expr : Symbol Token.Kind Nonterminal := .nonterminal .expr

/-- One nonterminal for all expressions, as ambiguous as that is, and a table of precedences: `➔` is
the weakest and groups to the right, `⋁` and `⋀` group to the left, and `¬` is the strongest. -/
def flat : Parser Token.Kind Nonterminal Production Token Formula where
  goal := .goal
  head
    | .goal => .goal
    | .start => .start
    | _ => .expr
  body
    | .goal => [.nonterminal .start]
    | .start => [expr]
    | .binary op => [expr, .terminal (.binary op), expr]
    | .negation => [.terminal .negation, expr]
    | .paren => [.terminal .openParen, expr, .terminal .closeParen]
    | .name => [.terminal .name]
    | .truth b => [.terminal (.truth b)]
  body_ne_nil p := by cases p <;> exact List.cons_ne_nil _ _
  binding
    | .binary op => ⟨op.precedence, op.groupsRight⟩
    | .negation => ⟨4, true⟩
    | _ => ⟨0, true⟩
  kind := Token.kind
  build
    | .start, [.inr f] => some f
    | .binary op, [.inr f, .inl _, .inr g] => some (.binary op f g)
    | .negation, [.inl _, .inr f] => some (.neg f)
    | .paren, [.inl _, .inr f, .inl _] => some f
    | .name, [.inl t] => some (.var (String.ofList t.text))
    | .truth b, [.inl _] => some (.const b)
    | _, _ => none

/-! ## The states of its automaton -/

/-- Items of the flat grammar. -/
abbrev FlatItem : Type := Item Token.Kind Nonterminal Production

/-- States of its automaton. -/
abbrev FlatState : Type := State Token.Kind Nonterminal Production

/-- Where an operand stands. -/
inductive Slot where
  | whole
  | negation
  | leftOf (op : Connective)
  | paren
deriving DecidableEq

namespace Slot

/-- The production that goes on with the operand. -/
def production : Slot → Production
  | whole => .start
  | negation => .negation
  | leftOf op => .binary op
  | paren => .paren

/-- What the production has after the operand. -/
def after : Slot → List (Symbol Token.Kind Nonterminal)
  | paren => [.terminal .closeParen]
  | _ => []

/-- The state in which an operand is awaited. -/
def awaiting : Slot → FlatState
  | whole => flat.initial
  | slot => fun i => i = ⟨slot.production, expr :: slot.after⟩

/-- The operand may be complete, or go on with a connective. -/
def holding (slot : Slot) : FlatState := fun i =>
  i = ⟨slot.production, slot.after⟩ ∨ ∃ op, i = ⟨.binary op, [.terminal (.binary op), expr]⟩

end Slot

/-- The state in which a production has been read to its end. -/
def complete (p : Production) : FlatState := fun i => i = ⟨p, []⟩

variable {slot : Slot} {i : FlatItem} {s : FlatState} {p q : Production} {k : Token.Kind}
  {a : Option Token.Kind} {op : Connective}

theorem eq_start_of_head (h : flat.head p = .start) : p = .start := by
  cases p with
  | start => rfl
  | _ => cases h

theorem contains_awaiting :
    flat.Contains slot.awaiting i ↔
      slot = .whole ∧ i = ⟨.goal, [.nonterminal .start]⟩ ∨
        i = ⟨slot.production, expr :: slot.after⟩ ∨
        flat.head i.production = .expr ∧ i.ahead = flat.body i.production := by
  constructor
  · intro h
    induction h with
    | kernel hi =>
      cases slot with
      | whole => exact Or.inl ⟨rfl, hi⟩
      | _ => exact Or.inr (Or.inl hi)
    | @begins p q rest _ ih =>
      rcases ih with ⟨rfl, hi⟩ | hi | ⟨hp, hi⟩
      · -- only the production of a whole expression begins at the start
        simp only [Item.mk.injEq, List.cons.injEq, Symbol.nonterminal.injEq] at hi
        obtain rfl := eq_start_of_head hi.2.1
        exact Or.inr (Or.inl rfl)
      · simp only [Item.mk.injEq, List.cons.injEq, Symbol.nonterminal.injEq] at hi
        exact Or.inr (Or.inr ⟨hi.2.1, rfl⟩)
      · -- of the expressions only those with a connective begin with an expression
        refine Or.inr (Or.inr ⟨?_, rfl⟩)
        generalize flat.head q = n at hi ⊢
        cases p with
        | goal => cases hp
        | start => cases hp
        | binary op => cases hi; rfl
        | _ => cases hi
  · intro h
    have hslot : flat.Contains slot.awaiting ⟨slot.production, expr :: slot.after⟩ := by
      cases slot with
      | whole => exact .begins (p := Production.goal) (q := Production.start) (.kernel rfl)
      | _ => exact .kernel rfl
    rcases h with ⟨rfl, rfl⟩ | rfl | ⟨hp, hi⟩
    · exact .kernel rfl
    · exact hslot
    · obtain ⟨p, ahead⟩ := i
      obtain rfl : ahead = flat.body p := hi
      have hbegin :
          flat.Contains slot.awaiting ⟨slot.production, .nonterminal (flat.head p) :: slot.after⟩ := by
        rw [hp]
        exact hslot
      exact .begins hbegin

theorem contains_holding : flat.Contains slot.holding i ↔ slot.holding i := by
  constructor
  · intro h
    induction h with
    | kernel hi => exact hi
    | @begins p q rest _ ih =>
      generalize flat.head q = n at ih
      rcases ih with hi | ⟨op, hi⟩
      · cases slot <;> cases hi
      · cases hi
  · exact .kernel

theorem contains_complete : flat.Contains (complete p) i ↔ i = ⟨p, []⟩ := by
  constructor
  · intro h
    induction h with
    | kernel hi => exact hi
    | begins _ ih => cases ih
  · exact fun hi => .kernel hi

theorem goto_awaiting_expr (slot : Slot) : flat.goto slot.awaiting expr = slot.holding := by
  funext ⟨p, ahead⟩
  refine propext (contains_awaiting.trans ⟨?_, ?_⟩)
  · rintro (⟨-, hi⟩ | hi | ⟨hp, hi⟩)
    · cases hi
    · cases hi; exact Or.inl rfl
    · cases p with
      | goal => cases hi
      | start => cases hp
      | binary op => cases hi; exact Or.inr ⟨op, rfl⟩
      | _ => cases hi
  · rintro (hi | ⟨op, hi⟩)
    · cases hi; exact Or.inr (Or.inl rfl)
    · cases hi; exact Or.inr (Or.inr ⟨rfl, rfl⟩)

theorem goto_awaiting_start :
    flat.goto Slot.whole.awaiting (.nonterminal .start) = complete .goal := by
  funext ⟨p, ahead⟩
  refine propext (contains_awaiting.trans ⟨?_, ?_⟩)
  · rintro (⟨-, hi⟩ | hi | ⟨hp, hi⟩)
    · cases hi; rfl
    · cases hi
    · cases p with
      | goal => cases hp
      | _ => cases hi
  · intro hi
    cases hi
    exact Or.inl ⟨rfl, rfl⟩

/-- A token leads from where an operand is awaited into the one production that begins with it. -/
theorem goto_awaiting_terminal {rest : List (Symbol Token.Kind Nonterminal)} (slot : Slot)
    (hp : flat.head p = .expr) (hbody : flat.body p = .terminal k :: rest) :
    flat.goto slot.awaiting (.terminal k) = fun i => i = ⟨p, rest⟩ := by
  funext ⟨q, ahead⟩
  refine propext (contains_awaiting.trans ⟨?_, ?_⟩)
  · rintro (⟨-, hi⟩ | hi | ⟨hq, hi⟩)
    · cases hi
    · cases hi
    · cases p <;> cases hbody <;> cases q <;> cases hi <;> rfl
  · intro hi
    cases hi
    exact Or.inr (Or.inr ⟨hp, hbody.symm⟩)

theorem goto_holding_binary (slot : Slot) (op : Connective) :
    flat.goto slot.holding (.terminal (.binary op)) = (Slot.leftOf op).awaiting := by
  funext ⟨p, ahead⟩
  refine propext (contains_holding.trans ⟨?_, ?_⟩)
  · rintro (hi | ⟨op', hi⟩)
    · cases slot <;> cases hi
    · cases hi; rfl
  · intro hi
    cases hi
    exact Or.inr ⟨op, rfl⟩

theorem goto_holding_closeParen :
    flat.goto Slot.paren.holding (.terminal .closeParen) = complete .paren := by
  funext ⟨p, ahead⟩
  refine propext (contains_holding.trans ⟨?_, ?_⟩)
  · rintro (hi | ⟨op', hi⟩)
    · cases hi; rfl
    · cases hi
  · intro hi
    cases hi
    exact Or.inl rfl

/-! ## Its lookaheads -/

/-- What may come after a nonterminal: after an expression a connective or the end of a group, and
after anything the end. -/
def follows (n : Nonterminal) : Option Token.Kind → Bool
  | none => true
  | some (.binary _) => n == .expr
  | some .closeParen => n == .expr
  | some _ => false

theorem follows_expr {n : Nonterminal} (h : follows n a = true) : follows .expr a = true := by
  cases a with
  | none => rfl
  | some k =>
    cases k with
    | binary op => rfl
    | closeParen => rfl
    | _ => exact h

theorem eq_none_of_follows {n : Nonterminal} (hn : n ≠ .expr) (h : follows n a = true) :
    a = none := by
  cases a with
  | none => rfl
  | some k => cases k <;> simp [follows, hn] at h

/-- Where a nonterminal can stand in a body. -/
theorem eq_of_append_eq_body {before rest : List (Symbol Token.Kind Nonterminal)} {n : Nonterminal}
    (h : before ++ .nonterminal n :: rest = flat.body p) :
    n = .start ∧ rest = [] ∧ flat.head p = .goal ∨
      n = .expr ∧ (rest = [] ∨ (∃ op, rest = [.terminal (.binary op), expr]) ∨
        rest = [.terminal .closeParen]) := by
  rcases before with _ | ⟨x, _ | ⟨y, _ | ⟨z, zs⟩⟩⟩ <;> cases p <;> simp [flat] at h ⊢ <;> simp [h]

theorem follows_of_lookahead (h : flat.Lookahead s i a) :
    follows (flat.head i.production) a = true := by
  induction h with
  | start => rfl
  | passes _ ih => exact ih
  | @beginsInside s p q Y rest a t hp hbegins _ =>
    -- inside a production an expression is followed by a connective or a closing parenthesis
    obtain ⟨before, hbody⟩ := hp.suffix
    show follows (flat.head q) (some t) = true
    rcases eq_of_append_eq_body hbody with ⟨-, h, -⟩ | ⟨hq, h | ⟨op, h⟩ | h⟩
    · cases h
    · cases h
    · cases h
      cases hbegins
      rw [hq]; rfl
    · cases h
      cases hbegins
      rw [hq]; rfl
  | @beginsLast s p q a hp ih =>
    obtain ⟨before, hbody⟩ := hp.suffix
    show follows (flat.head q) a = true
    rcases eq_of_append_eq_body hbody with ⟨hq, -, hhead⟩ | ⟨hq, -⟩
    · rw [hq]
      change follows (flat.head p) a = true at ih
      rw [hhead] at ih
      exact ih
    · rw [hq]
      exact follows_expr ih

theorem lookahead_begin_last (h : flat.Lookahead s ⟨p, [expr]⟩ a) (hq : flat.head q = .expr) :
    flat.Lookahead s ⟨q, flat.body q⟩ a := by
  have h' : flat.Lookahead s ⟨p, [.nonterminal (flat.head q)]⟩ a := by
    rw [hq]
    exact h
  exact h'.beginsLast

theorem lookahead_begin_inside {rest : List (Symbol Token.Kind Nonterminal)}
    (h : flat.Lookahead s ⟨p, expr :: .terminal k :: rest⟩ a) (hq : flat.head q = .expr) :
    flat.Lookahead s ⟨q, flat.body q⟩ (some k) := by
  have h' : flat.Lookahead s ⟨p, .nonterminal (flat.head q) :: .terminal k :: rest⟩ a := by
    rw [hq]
    exact h
  exact h'.beginsInside .terminal

/-- **All that can follow an expression is a lookahead** of every production that can begin where an
operand is awaited, in some slot. -/
theorem exists_lookahead (ha : follows .expr a = true) :
    ∃ slot : Slot, ∀ p, flat.head p = .expr → flat.Lookahead slot.awaiting ⟨p, flat.body p⟩ a := by
  have hstart : flat.Lookahead Slot.whole.awaiting ⟨.start, [expr]⟩ none :=
    .beginsLast (p := Production.goal) .start
  cases a with
  | none => exact ⟨.whole, fun p hp => lookahead_begin_last hstart hp⟩
  | some k =>
    cases k with
    | binary op =>
      have hinside := lookahead_begin_last (q := .binary op) hstart rfl
      exact ⟨.whole, fun p hp => lookahead_begin_inside hinside hp⟩
    | closeParen =>
      have hinside := (lookahead_begin_last (q := .paren) hstart rfl).passes
      rw [goto_awaiting_terminal (p := .paren) _ rfl rfl] at hinside
      exact ⟨.paren, fun p hp => lookahead_begin_inside hinside hp⟩
    | _ => cases ha

/-- It is one as well after the token with which a production begins. -/
theorem lookahead_after_terminal {rest : List (Symbol Token.Kind Nonterminal)}
    (ha : follows .expr a = true) (hp : flat.head p = .expr)
    (hbody : flat.body p = .terminal k :: rest) :
    flat.Lookahead (fun i => i = ⟨p, rest⟩) ⟨p, rest⟩ a := by
  obtain ⟨slot, h⟩ := exists_lookahead ha
  have hbegin := h p hp
  rw [hbody] at hbegin
  rw [← goto_awaiting_terminal slot hp hbody]
  exact hbegin.passes

theorem lookahead_awaiting (ha : follows (flat.head slot.production) a = true) :
    flat.Lookahead slot.awaiting ⟨slot.production, expr :: slot.after⟩ a := by
  cases slot with
  | whole =>
    obtain rfl := eq_none_of_follows (by decide) ha
    exact .beginsLast (p := Production.goal) .start
  | negation => exact lookahead_after_terminal (p := .negation) ha rfl rfl
  | leftOf op =>
    obtain ⟨slot, h⟩ := exists_lookahead ha
    have hright := (h (.binary op) rfl).passes.passes
    rwa [goto_awaiting_expr, goto_holding_binary] at hright
  | paren => exact lookahead_after_terminal (p := .paren) ha rfl rfl

theorem lookahead_holding (ha : follows (flat.head slot.production) a = true) :
    flat.Lookahead slot.holding ⟨slot.production, slot.after⟩ a := by
  rw [← goto_awaiting_expr]
  exact (lookahead_awaiting ha).passes

/-- The productions that end with a token, and the goal. -/
inductive Ends : Production → Prop
  | goal : Ends .goal
  | name : Ends .name
  | truth (b : Bool) : Ends (.truth b)
  | paren : Ends .paren

theorem lookahead_complete (hp : Ends p) (ha : follows (flat.head p) a = true) :
    flat.Lookahead (complete p) ⟨p, []⟩ a := by
  cases hp with
  | goal =>
    obtain rfl := eq_none_of_follows (by decide) ha
    have hstart : flat.Lookahead Slot.whole.awaiting ⟨.goal, [.nonterminal .start]⟩ none := .start
    rw [← goto_awaiting_start]
    exact hstart.passes
  | name => exact lookahead_after_terminal (p := .name) ha rfl rfl
  | truth b => exact lookahead_after_terminal (p := .truth b) ha rfl rfl
  | paren =>
    have hgroup : flat.Lookahead Slot.paren.holding ⟨.paren, [.terminal .closeParen]⟩ a :=
      lookahead_holding ha
    rw [← goto_holding_closeParen]
    exact hgroup.passes

/-! ## Its actions -/

theorem canReduce_awaiting : ¬ flat.CanReduce slot.awaiting a p := by
  intro h
  rcases contains_awaiting.mp h.contains with ⟨-, hi⟩ | hi | ⟨-, hi⟩
  · cases hi
  · cases hi
  · exact flat.body_ne_nil p hi.symm

theorem canReduce_holding :
    flat.CanReduce slot.holding a p ↔
      p = slot.production ∧ slot.after = [] ∧ follows (flat.head slot.production) a = true := by
  constructor
  · intro h
    have ha := follows_of_lookahead h
    rcases contains_holding.mp h.contains with hi | ⟨op, hi⟩
    · obtain ⟨rfl, hafter⟩ := Item.mk.inj hi
      exact ⟨rfl, hafter.symm, ha⟩
    · cases hi
  · rintro ⟨rfl, hafter, ha⟩
    have := lookahead_holding ha
    rwa [hafter] at this

theorem canReduce_complete (hp : Ends p) :
    flat.CanReduce (complete p) a q ↔ q = p ∧ follows (flat.head p) a = true := by
  constructor
  · intro h
    have ha := follows_of_lookahead h
    obtain ⟨rfl, -⟩ := Item.mk.inj (contains_complete.mp h.contains)
    exact ⟨rfl, ha⟩
  · rintro ⟨rfl, ha⟩
    exact lookahead_complete hp ha

theorem canShift_awaiting :
    flat.CanShift slot.awaiting k ↔
      k = .name ∨ (∃ b, k = .truth b) ∨ k = .negation ∨ k = .openParen := by
  constructor
  · rintro ⟨p, rest, h⟩
    rcases contains_awaiting.mp h with ⟨-, hi⟩ | hi | ⟨-, hi⟩
    · cases hi
    · cases hi
    · cases p <;> cases hi <;> simp
  · rintro (rfl | ⟨b, rfl⟩ | rfl | rfl)
    · exact ⟨.name, [], contains_awaiting.mpr (Or.inr (Or.inr ⟨rfl, rfl⟩))⟩
    · exact ⟨.truth b, [], contains_awaiting.mpr (Or.inr (Or.inr ⟨rfl, rfl⟩))⟩
    · exact ⟨.negation, _, contains_awaiting.mpr (Or.inr (Or.inr ⟨rfl, rfl⟩))⟩
    · exact ⟨.paren, _, contains_awaiting.mpr (Or.inr (Or.inr ⟨rfl, rfl⟩))⟩

theorem canShift_holding :
    flat.CanShift slot.holding k ↔
      (∃ op, k = .binary op) ∨ slot = .paren ∧ k = .closeParen := by
  constructor
  · rintro ⟨p, rest, h⟩
    rcases contains_holding.mp h with hi | ⟨op, hi⟩
    · cases slot with
      | paren => cases hi; exact Or.inr ⟨rfl, rfl⟩
      | _ => cases hi
    · cases hi; exact Or.inl ⟨op, rfl⟩
  · rintro (⟨op, rfl⟩ | ⟨rfl, rfl⟩)
    · exact ⟨.binary op, [expr], contains_holding.mpr (Or.inr ⟨op, rfl⟩)⟩
    · exact ⟨.paren, [], contains_holding.mpr (Or.inl rfl)⟩

theorem not_canShift_complete : ¬ flat.CanShift (complete p) k := by
  rintro ⟨q, rest, h⟩
  cases contains_complete.mp h

theorem acts_awaiting_shift (hk : flat.CanShift slot.awaiting k) (x : Action Production) :
    flat.Acts slot.awaiting (some k) x ↔ x = .shift :=
  Grammar.acts_iff_shift hk (fun _ h => absurd h canReduce_awaiting) x

theorem not_acts_awaiting (ha : ∀ k, a = some k → ¬ flat.CanShift slot.awaiting k)
    (x : Action Production) : ¬ flat.Acts slot.awaiting a x :=
  Grammar.not_acts ha (fun _ => canReduce_awaiting) x

theorem acts_complete (hp : Ends p) (hhead : flat.head p = .expr) (ha : follows .expr a = true)
    (x : Action Production) : flat.Acts (complete p) a x ↔ x = .reduce p := by
  refine Grammar.acts_iff_reduce (fun q => ?_) ?_ (fun k _ hk => absurd hk not_canShift_complete) x
  · rw [canReduce_complete hp, hhead]
    exact and_iff_left ha
  · rintro rfl
    cases hhead

theorem not_acts_complete (hp : Ends p) (hhead : flat.head p = .expr)
    (ha : follows .expr a = false) (x : Action Production) : ¬ flat.Acts (complete p) a x := by
  refine Grammar.not_acts (fun k _ => not_canShift_complete) (fun q hq => ?_) x
  have hfollows := ((canReduce_complete hp).mp hq).2
  rw [hhead, ha] at hfollows
  cases hfollows

theorem acts_goal (x : Action Production) : flat.Acts (complete .goal) none x ↔ x = .accept :=
  Grammar.acts_iff_accept (fun _ => (canReduce_complete .goal).trans (and_iff_left rfl)) x

theorem acts_holding_reduce (hslot : slot.after = [])
    (ha : follows (flat.head slot.production) a = true)
    (hwins : ∀ op, a = some (.binary op) → flat.Outranks slot.production (.binary op))
    (x : Action Production) : flat.Acts slot.holding a x ↔ x = .reduce slot.production := by
  refine Grammar.acts_iff_reduce (fun q => ?_) ?_ ?_ x
  · exact canReduce_holding.trans (and_iff_left ⟨hslot, ha⟩)
  · cases slot <;> exact nofun
  · rintro k rfl h
    rcases canShift_holding.mp h with ⟨op, rfl⟩ | ⟨rfl, rfl⟩
    · exact hwins op rfl
    · cases hslot

/-- No action: what cannot follow an expression is refused where one is held. -/
theorem not_acts_holding (ha : follows .expr a = false) (x : Action Production) :
    ¬ flat.Acts slot.holding a x := by
  refine Grammar.not_acts ?_ ?_ x
  · rintro k rfl h
    rcases canShift_holding.mp h with ⟨op, rfl⟩ | ⟨-, rfl⟩
    · cases ha
    · cases ha
  · intro p h
    have := follows_expr (canReduce_holding.mp h).2.2
    rw [ha] at this
    cases this

theorem acts_paren_closeParen (x : Action Production) :
    flat.Acts Slot.paren.holding (some .closeParen) x ↔ x = .shift := by
  refine Grammar.acts_iff_shift (canShift_holding.mpr (Or.inr ⟨rfl, rfl⟩)) (fun p hp => ?_) x
  cases (canReduce_holding.mp hp).2.1

theorem not_acts_paren_end (x : Action Production) : ¬ flat.Acts Slot.paren.holding none x := by
  refine Grammar.not_acts (fun k hk => by cases hk) (fun p h => ?_) x
  cases (canReduce_holding.mp h).2.1

theorem not_acts_whole_closeParen (x : Action Production) :
    ¬ flat.Acts Slot.whole.holding (some .closeParen) x := by
  refine Grammar.not_acts ?_ (fun p h => ?_) x
  · rintro k hk h
    cases hk
    rcases canShift_holding.mp h with ⟨op, h⟩ | ⟨h, -⟩
    · cases h
    · cases h
  · cases (canReduce_holding.mp h).2.2

end Propositional.Lalr
