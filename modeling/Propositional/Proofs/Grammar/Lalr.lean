/-!
# LALR(1) parsing with precedence

What a parser generator makes of a grammar, ambiguous or not, and of a precedence table. A state of
the automaton is a set of items, that is of productions that have been read up to some symbol;
`goto` moves it over a symbol. The lookaheads of an item are collected over all ways to its state,
and where a token could be shifted as well as be the lookahead of a reduction, the precedence table
decides.

* `Grammar.Acts`: what the automaton does in a state before a token.
* `Parser.Runs`: the run of the automaton, with its stack of states and values, up to the value that
  it accepts or the first token that it cannot act on.
* `Grammar.Lookahead.contains`, `Grammar.Lookahead.suffix`: lookaheads belong to the items of a
  state, which are productions read in part.
* `Parser.runs_shift_iff` and its companions: a run takes the step that is its only one.
-/

namespace Propositional.Lalr

variable {T N P I V : Type}

/-- What the body of a production consists of. -/
inductive Symbol (T N : Type) where
  | terminal (t : T)
  | nonterminal (n : N)

/-- How strongly a terminal binds, and to which side equal ones are grouped. -/
structure Binding where
  level : Nat
  groupsRight : Bool

/-- A grammar with productions that are named by `P`, and a precedence table. -/
structure Grammar (T N P : Type) where
  /-- The production of a whole input. -/
  goal : P
  head : P → N
  body : P → List (Symbol T N)
  body_ne_nil : ∀ p, body p ≠ []
  binding : T → Binding

/-- A production that has been read up to the symbols `ahead`. -/
structure Item (T N P : Type) where
  production : P
  ahead : List (Symbol T N)

/-- A state of the automaton: the items that say how far the productions have been read. -/
abbrev State (T N P : Type) : Type := Item T N P → Prop

/-- What the automaton does in a state at a token. -/
inductive Action (P : Type) where
  | shift
  | reduce (p : P)
  | accept

namespace Grammar

variable (G : Grammar T N P)

/-! ## The automaton -/

/-- The items of a state, and those of the productions that begin where it stands. -/
inductive Contains (s : State T N P) : Item T N P → Prop
  | kernel {i : Item T N P} : s i → Contains s i
  | begins {p q : P} {rest : List (Symbol T N)} :
      Contains s ⟨p, .nonterminal (G.head q) :: rest⟩ → Contains s ⟨q, G.body q⟩

/-- The state before the first token. -/
def initial : State T N P := fun i => i = ⟨G.goal, G.body G.goal⟩

/-- The state after one more symbol. -/
def goto (s : State T N P) (X : Symbol T N) : State T N P :=
  fun i => G.Contains s ⟨i.production, X :: i.ahead⟩

/-- The terminal is the first of something that the symbol derives; no production is empty. -/
inductive Begins : Symbol T N → T → Prop
  | terminal {t : T} : Begins (.terminal t) t
  | nonterminal {q : P} {X : Symbol T N} {rest : List (Symbol T N)} {t : T} :
      G.body q = X :: rest → Begins X t → Begins (.nonterminal (G.head q)) t

/-- **The lookaheads of the items of a state**: what comes next when the production is complete,
`none` for the end. Ways that lead to the same state are not told apart. -/
inductive Lookahead : State T N P → Item T N P → Option T → Prop
  | start : Lookahead G.initial ⟨G.goal, G.body G.goal⟩ none
  | passes {s : State T N P} {p : P} {X : Symbol T N} {rest : List (Symbol T N)} {a : Option T} :
      Lookahead s ⟨p, X :: rest⟩ a → Lookahead (G.goto s X) ⟨p, rest⟩ a
  | beginsInside {s : State T N P} {p q : P} {Y : Symbol T N} {rest : List (Symbol T N)}
      {a : Option T} {t : T} :
      Lookahead s ⟨p, .nonterminal (G.head q) :: Y :: rest⟩ a → G.Begins Y t →
        Lookahead s ⟨q, G.body q⟩ (some t)
  | beginsLast {s : State T N P} {p q : P} {a : Option T} :
      Lookahead s ⟨p, [.nonterminal (G.head q)]⟩ a → Lookahead s ⟨q, G.body q⟩ a

/-- The state has an item that goes on with the terminal. -/
def CanShift (s : State T N P) (t : T) : Prop :=
  ∃ p rest, G.Contains s ⟨p, .terminal t :: rest⟩

/-- The state has read the production to its end, and it may be followed by `a`. -/
def CanReduce (s : State T N P) (a : Option T) (p : P) : Prop := G.Lookahead s ⟨p, []⟩ a

/-- A production binds like its last terminal. -/
def bindingOf (p : P) : Binding :=
  (G.body p).foldl (fun b X => match X with | .terminal t => G.binding t | .nonterminal _ => b)
    ⟨0, true⟩

/-- In a conflict the stronger of production and token wins, and between equals the production, if
they are grouped to the left. -/
def Outranks (p : P) (t : T) : Prop :=
  (G.binding t).level < (G.bindingOf p).level ∨
    (G.binding t).level = (G.bindingOf p).level ∧ (G.bindingOf p).groupsRight = false

/-- **What the automaton does** in a state before a token, or before the end. -/
inductive Acts (s : State T N P) : Option T → Action P → Prop
  | shift {t : T} : G.CanShift s t → (∀ p, G.CanReduce s (some t) p → ¬ G.Outranks p t) →
      Acts s (some t) .shift
  | reduce {a : Option T} {p : P} : G.CanReduce s a p → p ≠ G.goal →
      (∀ t, a = some t → G.CanShift s t → G.Outranks p t) → Acts s a (.reduce p)
  | accept : G.CanReduce s none G.goal → Acts s none .accept

/-! ## Items and their lookaheads -/

variable {G} {s : State T N P} {i : Item T N P} {a : Option T}

theorem Lookahead.contains (h : G.Lookahead s i a) : G.Contains s i := by
  induction h with
  | start => exact .kernel rfl
  | passes _ ih => exact .kernel ih
  | beginsInside _ _ ih => exact .begins ih
  | beginsLast _ ih => exact .begins ih

/-- What is ahead of an item is the end of its production. -/
theorem Lookahead.suffix (h : G.Lookahead s i a) : i.ahead <:+ G.body i.production := by
  induction h with
  | start => exact List.suffix_refl _
  | passes _ ih => exact (List.suffix_cons _ _).trans ih
  | beginsInside _ _ _ => exact List.suffix_refl _
  | beginsLast _ _ => exact List.suffix_refl _

/-! ## What the automaton does, from what it can do -/

variable {t : T} {p : P}

theorem acts_iff_shift (ht : G.CanShift s t)
    (h : ∀ p, G.CanReduce s (some t) p → ¬ G.Outranks p t) (x : Action P) :
    G.Acts s (some t) x ↔ x = .shift := by
  constructor
  · intro hact
    cases hact with
    | shift _ _ => rfl
    | reduce hp _ hwins => exact absurd (hwins t rfl ht) (h _ hp)
  · rintro rfl
    exact .shift ht h

theorem acts_iff_reduce (hp : ∀ q, G.CanReduce s a q ↔ q = p) (hgoal : p ≠ G.goal)
    (h : ∀ t, a = some t → G.CanShift s t → G.Outranks p t) (x : Action P) :
    G.Acts s a x ↔ x = .reduce p := by
  constructor
  · intro hact
    cases hact with
    | shift ht hloses => exact absurd (h _ rfl ht) (hloses p ((hp p).mpr rfl))
    | reduce hq _ _ => rw [(hp _).mp hq]
    | accept hq => exact absurd ((hp _).mp hq).symm hgoal
  · rintro rfl
    exact .reduce ((hp p).mpr rfl) hgoal h

theorem acts_iff_accept (hp : ∀ q, G.CanReduce s none q ↔ q = G.goal) (x : Action P) :
    G.Acts s none x ↔ x = .accept := by
  constructor
  · intro hact
    cases hact with
    | reduce hq hgoal _ => exact absurd ((hp _).mp hq) hgoal
    | accept _ => rfl
  · rintro rfl
    exact .accept ((hp _).mpr rfl)

theorem not_acts (ht : ∀ t, a = some t → ¬ G.CanShift s t) (hp : ∀ p, ¬ G.CanReduce s a p)
    (x : Action P) : ¬ G.Acts s a x := by
  intro hact
  cases hact with
  | shift h _ => exact ht _ rfl h
  | reduce h _ _ => exact hp _ h
  | accept h => exact hp _ h

end Grammar

/-! ## Running the automaton -/

/-- A grammar with what is done while it is read: a token of the input counts as a terminal, and a
reduction makes a value out of the tokens and values of the symbols in its body. -/
structure Parser (T N P I V : Type) extends Grammar T N P where
  kind : I → T
  build : P → List (I ⊕ V) → Option V

/-- The stack of a parser: each state with the token or value of the symbol that led to it. -/
abbrev Stack (T N P I V : Type) : Type := List (State T N P × (I ⊕ V))

namespace Parser

variable (M : Parser T N P I V)

/-- The state on top of the stack. -/
def top : Stack T N P I V → State T N P
  | [] => M.initial
  | (s, _) :: _ => s

/-- **A run of the automaton** on the rest of the input, from a stack to the result: the accepted
value, or the token at which no action is possible (`none` at the end). -/
inductive Runs : Stack T N P I V → List I → Except (Option I) V → Prop
  | shift {stack : Stack T N P I V} {t : I} {ts : List I} {r : Except (Option I) V} :
      M.Acts (M.top stack) (some (M.kind t)) .shift →
      Runs ((M.goto (M.top stack) (.terminal (M.kind t)), .inl t) :: stack) ts r →
      Runs stack (t :: ts) r
  | reduce {popped stack : Stack T N P I V} {p : P} {v : V} {ts : List I}
      {r : Except (Option I) V} :
      M.Acts (M.top (popped ++ stack)) (ts.head?.map M.kind) (.reduce p) →
      popped.length = (M.body p).length → M.build p (popped.reverse.map Prod.snd) = some v →
      Runs ((M.goto (M.top stack) (.nonterminal (M.head p)), .inr v) :: stack) ts r →
      Runs (popped ++ stack) ts r
  | accept {s : State T N P} {v : V} {stack : Stack T N P I V} :
      M.Acts s none .accept → Runs ((s, .inr v) :: stack) [] (.ok v)
  | reject {stack : Stack T N P I V} {ts : List I} :
      (∀ x, ¬ M.Acts (M.top stack) (ts.head?.map M.kind) x) → Runs stack ts (.error ts.head?)

variable {M} {stack popped : Stack T N P I V} {t : I} {ts : List I} {p : P} {v : V}
  {s : State T N P} {r : Except (Option I) V}

theorem runs_shift_iff
    (h : ∀ x, M.Acts (M.top stack) (some (M.kind t)) x ↔ x = .shift) :
    M.Runs stack (t :: ts) r ↔
      M.Runs ((M.goto (M.top stack) (.terminal (M.kind t)), .inl t) :: stack) ts r := by
  constructor
  · intro hrun
    cases hrun with
    | shift _ hrest => exact hrest
    | reduce hact => cases (h _).mp hact
    | reject hno => exact absurd ((h .shift).mpr rfl) (hno .shift)
  · exact .shift ((h _).mpr rfl)

theorem runs_reduce_iff
    (h : ∀ x, M.Acts (M.top (popped ++ stack)) (ts.head?.map M.kind) x ↔ x = .reduce p)
    (hlen : popped.length = (M.body p).length)
    (hbuild : M.build p (popped.reverse.map Prod.snd) = some v) :
    M.Runs (popped ++ stack) ts r ↔
      M.Runs ((M.goto (M.top stack) (.nonterminal (M.head p)), .inr v) :: stack) ts r := by
  constructor
  · intro hrun
    generalize hst : popped ++ stack = st at h hrun
    cases hrun with
    | shift hact => cases (h _).mp hact
    | accept hact => cases (h _).mp hact
    | reject hno => exact absurd ((h _).mpr rfl) (hno _)
    | reduce hact hlen' hbuild' hrest =>
      obtain ⟨⟩ := (h _).mp hact
      obtain ⟨rfl, rfl⟩ := List.append_inj hst (hlen.trans hlen'.symm)
      obtain rfl := Option.some.inj (hbuild.symm.trans hbuild')
      exact hrest
  · exact .reduce ((h _).mpr rfl) hlen hbuild

theorem runs_accept_iff (h : ∀ x, M.Acts s none x ↔ x = .accept) :
    M.Runs ((s, .inr v) :: stack) [] r ↔ r = .ok v := by
  constructor
  · intro hrun
    generalize hst : (s, Sum.inr v) :: stack = st at hrun
    cases hrun with
    | accept _ => cases hst; rfl
    | reject hno => subst hst; exact absurd ((h .accept).mpr rfl) (hno .accept)
    | reduce hact => rw [← hst] at hact; cases (h _).mp hact
  · rintro rfl
    exact .accept ((h _).mpr rfl)

theorem runs_reject_iff (h : ∀ x, ¬ M.Acts (M.top stack) (ts.head?.map M.kind) x) :
    M.Runs stack ts r ↔ r = .error ts.head? := by
  constructor
  · intro hrun
    cases hrun with
    | shift hact => exact absurd hact (h _)
    | reduce hact => exact absurd hact (h _)
    | accept hact => exact absurd hact (h _)
    | reject _ => rfl
  · rintro rfl
    exact .reject h

end Parser

end Propositional.Lalr
