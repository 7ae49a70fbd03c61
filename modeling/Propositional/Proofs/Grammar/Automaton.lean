import Propositional.Proofs.Grammar.Flat
import Propositional.Proofs.Outcome

/-!
# Reading is LALR(1) parsing

The automaton of the flat grammar delays its reductions until it sees the next token, and then makes
them one by one. The reader has no states: it fills its frames by comparing connectives. Both come
to the same result, with the same token as the error.

* `Stands`: the stack of the automaton for the frames of a reading that awaits an operand.
* `Stands.runs_fillWhile_iff`: the automaton reduces while the reader fills frames, and
  `Stands.runs_complete_iff`: a reduction that the automaton delays may as well be made at once.
* `Agrees.cons_awaiting`, `Agrees.cons_holding`: one token keeps the two together.
* `runs_iff_ofTokens`: the automaton runs to the result of `Formula.ofTokens`, and to no other;
  `exists_runs`: it runs to some result on all tokens.
-/

namespace Propositional.Lalr

open Propositional.Frame

/-! ## The stack of a reading -/

/-- Where the operand stands that a frame waits for. -/
def Slot.ofFrame : Frame → Slot
  | .negation => negation
  | .leftOf op _ => leftOf op
  | .paren => paren

/-- Where the next operand stands: what the innermost frame waits for, or the whole formula. -/
def Slot.ofFrames : List Frame → Slot
  | [] => whole
  | frame :: _ => ofFrame frame

/-- Stacks of the automaton of the flat grammar. -/
abbrev FlatStack : Type := Stack Token.Kind Nonterminal Production Token Formula

/-- The stack of the automaton where the reader has opened these frames and awaits an operand. -/
inductive Stands : List Frame → FlatStack → Prop
  | nil : Stands [] []
  | negation {fs : List Frame} {stack : FlatStack} {t : Token} :
      Stands fs stack → Stands (.negation :: fs) ((Slot.negation.awaiting, .inl t) :: stack)
  | leftOf {fs : List Frame} {stack : FlatStack} {t : Token} {op : Connective} {f : Formula} :
      Stands fs stack →
        Stands (.leftOf op f :: fs)
          (((Slot.leftOf op).awaiting, .inl t) :: ((Slot.ofFrames fs).holding, .inr f) :: stack)
  | paren {fs : List Frame} {stack : FlatStack} {t : Token} :
      Stands fs stack → Stands (.paren :: fs) ((Slot.paren.awaiting, .inl t) :: stack)

variable {fs : List Frame} {stack popped : FlatStack} {ts : List Token} {t : Token} {f : Formula}
  {frame : Frame} {r : Except (Option Token) Formula} {a : Option Token.Kind} {op : Connective}
  {p : Production}

theorem Stands.top (h : Stands fs stack) : flat.top stack = (Slot.ofFrames fs).awaiting := by
  cases h <;> rfl

theorem Stands.goto_expr (h : Stands fs stack) (hp : flat.head p = .expr) :
    flat.goto (flat.top stack) (.nonterminal (flat.head p)) = (Slot.ofFrames fs).holding := by
  rw [h.top, hp]
  exact goto_awaiting_expr _

/-! ## The actions of a frame -/

/-- **The table of precedences is the comparison of the reader**: the production of a frame outranks
a connective exactly if the connective closes the frame. -/
theorem outranks_iff :
    flat.Outranks (Slot.ofFrame frame).production (.binary op) ↔ frame.bindsBefore op = true := by
  unfold Grammar.Outranks
  cases frame with
  | negation =>
    cases op <;> simp [Grammar.bindingOf, flat, Slot.ofFrame, Slot.production, bindsBefore,
      Connective.precedence]
  | leftOf inner left =>
    cases op <;> cases inner <;> simp [Grammar.bindingOf, flat, Slot.ofFrame, Slot.production,
      bindsBefore, Connective.precedence, Connective.groupsRight]
  | paren =>
    cases op <;> simp [Grammar.bindingOf, flat, Slot.ofFrame, Slot.production, bindsBefore,
      Connective.precedence]

/-- A frame is reduced before whatever lets the reader fill it. -/
theorem acts_ofFrame (hparen : frame.isParen = false) (ha : follows .expr a = true)
    (hwins : ∀ op, a = some (.binary op) → frame.bindsBefore op = true) (x : Action Production) :
    flat.Acts (Slot.ofFrame frame).holding a x ↔ x = .reduce (Slot.ofFrame frame).production := by
  refine acts_holding_reduce ?_ ?_ (fun op hop => outranks_iff.mpr (hwins op hop)) x
  · cases frame with
    | paren => cases hparen
    | _ => rfl
  · cases frame <;> exact ha

/-- A connective that closes no further frame is shifted. -/
theorem acts_ofFrames_binary (h : ∀ frame rest, fs = frame :: rest → frame.bindsBefore op = false)
    (x : Action Production) :
    flat.Acts (Slot.ofFrames fs).holding (some (.binary op)) x ↔ x = .shift := by
  refine Grammar.acts_iff_shift (canShift_holding.mpr (Or.inl ⟨op, rfl⟩)) (fun p hp => ?_) x
  obtain ⟨rfl, -, ha⟩ := canReduce_holding.mp hp
  cases fs with
  | nil => cases ha
  | cons frame rest =>
    have hframe := h frame rest rfl
    intro hwins
    rw [outranks_iff.mp hwins] at hframe
    cases hframe

/-! ## Reductions -/

/-- A complete expression may as well be reduced at once: before a token that can follow it the
automaton reduces it, and any other token is refused in either case. -/
theorem Stands.runs_complete_iff (h : Stands fs stack) (hp : Ends p) (hhead : flat.head p = .expr)
    (htop : flat.top (popped ++ stack) = complete p) (hlen : popped.length = (flat.body p).length)
    (hbuild : flat.build p (popped.reverse.map Prod.snd) = some f) :
    flat.Runs (popped ++ stack) ts r ↔
      flat.Runs (((Slot.ofFrames fs).holding, .inr f) :: stack) ts r := by
  cases ha : follows .expr (ts.head?.map flat.kind) with
  | false =>
    have hno := not_acts_complete hp hhead ha
    rw [← htop] at hno
    exact (Parser.runs_reject_iff hno).trans (Parser.runs_reject_iff (not_acts_holding ha)).symm
  | true =>
    have hact := acts_complete hp hhead ha
    rw [← htop] at hact
    rw [Parser.runs_reduce_iff hact hlen hbuild, h.goto_expr hhead]

theorem Stands.runs_fill_iff (h : Stands (frame :: fs) stack) (hparen : frame.isParen = false)
    (hact : ∀ x, flat.Acts (Slot.ofFrame frame).holding (ts.head?.map flat.kind) x ↔
      x = .reduce (Slot.ofFrame frame).production) :
    ∃ stack', Stands fs stack' ∧ ∀ r,
      flat.Runs (((Slot.ofFrame frame).holding, .inr f) :: stack) ts r ↔
        flat.Runs (((Slot.ofFrames fs).holding, .inr (frame.fill f)) :: stack') ts r := by
  cases h with
  | @negation _ stack t h =>
    refine ⟨stack, h, fun r => ?_⟩
    have hred : flat.Runs ([(Slot.negation.holding, .inr f), (Slot.negation.awaiting, .inl t)] ++
        stack) ts r ↔ _ := Parser.runs_reduce_iff hact rfl rfl
    rwa [h.goto_expr rfl] at hred
  | @leftOf _ stack t op l h =>
    refine ⟨stack, h, fun r => ?_⟩
    have hred : flat.Runs ([((Slot.leftOf op).holding, .inr f), ((Slot.leftOf op).awaiting, .inl t),
        ((Slot.ofFrames fs).holding, .inr l)] ++ stack) ts r ↔ _ :=
      Parser.runs_reduce_iff hact rfl rfl
    rwa [h.goto_expr rfl] at hred
  | paren h => cases hparen

/-- **The automaton reduces while the reader fills frames**, if it reduces for each that is
filled. -/
theorem Stands.runs_fillWhile_iff (f : Formula) (ts : List Token) {p : Frame → Bool}
    (hp : ∀ frame, p frame = true → frame.isParen = false ∧
      ∀ x, flat.Acts (Slot.ofFrame frame).holding (ts.head?.map flat.kind) x ↔
        x = .reduce (Slot.ofFrame frame).production)
    (h : Stands fs stack) :
    ∃ stack', Stands (fillWhile p f fs).2 stack' ∧ ∀ r,
      flat.Runs (((Slot.ofFrames fs).holding, .inr f) :: stack) ts r ↔
        flat.Runs (((Slot.ofFrames (fillWhile p f fs).2).holding, .inr (fillWhile p f fs).1) ::
          stack') ts r := by
  induction fs generalizing stack f with
  | nil => exact ⟨stack, h, fun _ => Iff.rfl⟩
  | cons frame fs ih =>
    rw [fillWhile]
    split
    · rename_i hframe
      obtain ⟨hparen, hact⟩ := hp frame hframe
      obtain ⟨stack', h', hfill⟩ := h.runs_fill_iff (f := f) hparen hact
      obtain ⟨stack'', h'', hrest⟩ := ih (frame.fill f) h'
      exact ⟨stack'', h'', fun r => (hfill r).trans (hrest r)⟩
    · exact ⟨stack, h, fun _ => Iff.rfl⟩

/-- Before the end of a group or of the input, all frames of the group are reduced. -/
theorem Stands.runs_group_iff (h : Stands fs stack) (f : Formula) (ts : List Token)
    (ha : follows .expr (ts.head?.map flat.kind) = true)
    (hop : ∀ op, ts.head?.map flat.kind ≠ some (.binary op)) :
    ∃ stack', Stands (fillWhile (fun frame => !frame.isParen) f fs).2 stack' ∧ ∀ r,
      flat.Runs (((Slot.ofFrames fs).holding, .inr f) :: stack) ts r ↔
        flat.Runs (((Slot.ofFrames (fillWhile (fun frame => !frame.isParen) f fs).2).holding,
          .inr (fillWhile (fun frame => !frame.isParen) f fs).1) :: stack') ts r := by
  refine h.runs_fillWhile_iff f ts fun frame hframe => ?_
  have hparen : frame.isParen = false := by simpa using hframe
  exact ⟨hparen, acts_ofFrame hparen ha fun op h => absurd h (hop op)⟩

/-- Before a connective, the frames that it closes are reduced. -/
theorem Stands.runs_before_iff (h : Stands fs stack) (f : Formula) (ts : List Token)
    (hop : ts.head?.map flat.kind = some (.binary op)) :
    ∃ stack', Stands (fillWhile (bindsBefore op) f fs).2 stack' ∧ ∀ r,
      flat.Runs (((Slot.ofFrames fs).holding, .inr f) :: stack) ts r ↔
        flat.Runs (((Slot.ofFrames (fillWhile (bindsBefore op) f fs).2).holding,
          .inr (fillWhile (bindsBefore op) f fs).1) :: stack') ts r := by
  refine h.runs_fillWhile_iff f ts fun frame hframe => ?_
  have hparen := isParen_of_bindsBefore hframe
  refine ⟨hparen, acts_ofFrame hparen ?_ fun op' hop' => ?_⟩
  · rw [hop]
    rfl
  · rw [hop] at hop'
    cases hop'
    exact hframe

/-! ## Shifts -/

theorem runs_shift_iff_of_kind {k : Token.Kind} (hk : t.kind = k)
    (hact : ∀ x, flat.Acts (flat.top stack) (some k) x ↔ x = .shift) :
    flat.Runs stack (t :: ts) r ↔
      flat.Runs ((flat.goto (flat.top stack) (.terminal k), .inl t) :: stack) ts r := by
  subst hk
  exact Parser.runs_shift_iff hact

/-- A token with which a production begins is shifted where an operand is awaited. -/
theorem Stands.runs_begin_iff {k : Token.Kind} {rest : List (Symbol Token.Kind Nonterminal)}
    (h : Stands fs stack) (hk : t.kind = k) (hp : flat.head p = .expr)
    (hbody : flat.body p = .terminal k :: rest) :
    flat.Runs stack (t :: ts) r ↔ flat.Runs ((fun i => i = ⟨p, rest⟩, .inl t) :: stack) ts r := by
  have hshift : flat.CanShift (Slot.ofFrames fs).awaiting k :=
    ⟨p, rest, contains_awaiting.mpr (Or.inr (Or.inr ⟨hp, hbody.symm⟩))⟩
  have hact := acts_awaiting_shift hshift
  rw [← h.top] at hact
  rw [runs_shift_iff_of_kind hk hact, h.top, goto_awaiting_terminal _ hp hbody]

/-- Any other token is refused. -/
theorem Stands.runs_refuse_iff (h : Stands fs stack)
    (hk : ∀ k, ts.head?.map flat.kind = some k → ¬ flat.CanShift (Slot.ofFrames fs).awaiting k) :
    flat.Runs stack ts r ↔ r = .error ts.head? := by
  refine Parser.runs_reject_iff ?_
  rw [h.top]
  exact not_acts_awaiting hk

/-- A connective is shifted where nothing more is to be reduced before it. -/
theorem runs_binary_iff (hk : t.kind = .binary op)
    (hstop : ∀ frame rest, fs = frame :: rest → frame.bindsBefore op = false) :
    flat.Runs (((Slot.ofFrames fs).holding, .inr f) :: stack) (t :: ts) r ↔
      flat.Runs (((Slot.leftOf op).awaiting, .inl t) :: ((Slot.ofFrames fs).holding, .inr f) ::
        stack) ts r := by
  rw [← goto_holding_binary]
  exact runs_shift_iff_of_kind hk (acts_ofFrames_binary hstop)

/-- A closing parenthesis is shifted in a group, which is then complete. -/
theorem Stands.runs_close_iff (h : Stands (.paren :: fs) stack) (hk : t.kind = .closeParen) :
    ∃ stack', Stands fs stack' ∧ ∀ r,
      flat.Runs ((Slot.paren.holding, .inr f) :: stack) (t :: ts) r ↔
        flat.Runs (((Slot.ofFrames fs).holding, .inr f) :: stack') ts r := by
  cases h with
  | @paren _ stack u h =>
    refine ⟨stack, h, fun r => ?_⟩
    have hgroup : flat.Runs ([(complete .paren, .inl t), (Slot.paren.holding, .inr f),
        (Slot.paren.awaiting, .inl u)] ++ stack) ts r ↔ _ :=
      h.runs_complete_iff .paren rfl rfl rfl rfl
    rw [← hgroup, ← goto_holding_closeParen]
    exact runs_shift_iff_of_kind hk acts_paren_closeParen

/-- A whole expression is accepted at the end. -/
theorem runs_whole_iff : flat.Runs [(Slot.whole.holding, .inr f)] [] r ↔ r = .ok f := by
  have hact : ∀ x, flat.Acts Slot.whole.holding none x ↔ x = .reduce .start :=
    acts_holding_reduce rfl rfl nofun
  have hred : flat.Runs ([(Slot.whole.holding, .inr f)] ++ []) [] r ↔ _ :=
    Parser.runs_reduce_iff hact rfl rfl
  have hgoto : flat.goto (flat.top []) (.nonterminal (flat.head .start)) = complete .goal :=
    goto_awaiting_start
  rw [hgoto, Parser.runs_accept_iff acts_goal] at hred
  exact hred

/-! ## The result -/

/-- The error for a token on which there is no action, or for the end. -/
def syntaxError : Option Token → ParseError
  | some t => .unexpectedToken t
  | none => .unexpectedEnd

theorem eq_error_iff {o : Option Token} :
    r = .error o ↔ .error (syntaxError o) = r.mapError syntaxError := by
  cases r with
  | ok f => simp
  | error o' => cases o <;> cases o' <;> simp [syntaxError, eq_comm]

theorem eq_ok_iff : r = .ok f ↔ .ok f = r.mapError syntaxError := by
  cases r with
  | ok g => simp [eq_comm]
  | error o => simp

/-- What a reading comes to with the rest of the tokens. -/
def verdict (q : Reading) (ts : List Token) : Except ParseError Formula :=
  (q.shiftAll ts).bind Reading.finish

theorem ofTokens_eq_verdict (ts : List Token) : Formula.ofTokens ts = verdict .start ts := by
  unfold Formula.ofTokens verdict
  cases Reading.start.shiftAll ts <;> rfl

theorem verdict_append_of_ok {q q' : Reading} {us : List Token} (h : q.shiftAll ts = .ok q') :
    verdict q (ts ++ us) = verdict q' us := by
  rw [verdict, Reading.shiftAll_append, h]
  rfl

theorem verdict_cons_of_some {q q' : Reading} (h : q.shift t = some q') :
    verdict q (t :: ts) = verdict q' ts := by
  rw [verdict, Reading.shiftAll, h]
  rfl

theorem verdict_cons_of_none {q : Reading} (h : q.shift t = none) :
    verdict q (t :: ts) = .error (syntaxError (some t)) := by
  rw [verdict, Reading.shiftAll, h]
  rfl

/-- On these tokens the automaton comes to the verdict of the reader, whatever has been read. -/
structure Agrees (ts : List Token) : Prop where
  awaiting : ∀ {fs stack}, Stands fs stack → ∀ r,
    flat.Runs stack ts r ↔ verdict ⟨fs, none⟩ ts = r.mapError syntaxError
  holding : ∀ {fs stack}, Stands fs stack → ∀ f r,
    flat.Runs (((Slot.ofFrames fs).holding, .inr f) :: stack) ts r ↔
      verdict ⟨fs, some f⟩ ts = r.mapError syntaxError

/-- At the end all frames are reduced, and the automaton accepts if there was no parenthesis. -/
theorem agrees_nil : Agrees [] := by
  refine ⟨fun {fs stack} h r => ?_, fun {fs stack} h f r => ?_⟩
  · rw [h.runs_refuse_iff fun k hk => by cases hk]
    exact eq_error_iff
  · obtain ⟨stack', h', hgroup⟩ := h.runs_group_iff f [] rfl nofun
    rw [hgroup r]
    rcases fillWhile_not_isParen f fs with ⟨g, hg⟩ | ⟨g, rest, hg⟩
    · have hverdict : verdict ⟨fs, some f⟩ [] = .ok g := Reading.finish_of_nil hg
      rw [hg] at h' ⊢
      cases h'
      rw [hverdict]
      exact runs_whole_iff.trans eq_ok_iff
    · have hverdict : verdict ⟨fs, some f⟩ [] = .error (syntaxError none) :=
        Reading.finish_of_paren hg
      rw [hg, hverdict, Parser.runs_reject_iff not_acts_paren_end]
      exact eq_error_iff

/-- **Where an operand is awaited** the automaton shifts the tokens that the reader takes. -/
theorem Agrees.cons_awaiting (hts : Agrees ts) (t : Token) (h : Stands fs stack) :
    flat.Runs stack (t :: ts) r ↔ verdict ⟨fs, none⟩ (t :: ts) = r.mapError syntaxError := by
  cases hk : t.kind with
  | name =>
    have hleaf : flat.Runs ([(complete .name, .inl t)] ++ stack) ts r ↔ _ :=
      h.runs_complete_iff .name rfl rfl rfl rfl
    rw [h.runs_begin_iff (p := .name) hk rfl rfl, verdict_cons_of_some (Reading.shift_name hk),
      ← hts.holding h]
    exact hleaf
  | truth b =>
    have hleaf : flat.Runs ([(complete (.truth b), .inl t)] ++ stack) ts r ↔ _ :=
      h.runs_complete_iff (.truth b) rfl rfl rfl rfl
    rw [h.runs_begin_iff (p := .truth b) hk rfl rfl, verdict_cons_of_some (Reading.shift_truth hk),
      ← hts.holding h]
    exact hleaf
  | negation =>
    rw [h.runs_begin_iff (p := .negation) hk rfl rfl,
      verdict_cons_of_some (Reading.shift_negation hk)]
    exact hts.awaiting (.negation h) r
  | openParen =>
    rw [h.runs_begin_iff (p := .paren) hk rfl rfl,
      verdict_cons_of_some (Reading.shift_openParen hk)]
    exact hts.awaiting (.paren h) r
  | binary op | closeParen | illegal =>
    have hread : (⟨fs, none⟩ : Reading).shift t = none :=
      Reading.shift_none_eq_none (by simp [hk])
    have hno : ∀ k, (t :: ts).head?.map flat.kind = some k →
        ¬ flat.CanShift (Slot.ofFrames fs).awaiting k := by
      rintro k hk'
      obtain rfl : t.kind = k := Option.some.inj hk'
      simp [canShift_awaiting, hk]
    rw [h.runs_refuse_iff hno, verdict_cons_of_none hread]
    exact eq_error_iff

/-- **Where an operand is held** the automaton reduces what the reader fills, and then shifts. -/
theorem Agrees.cons_holding (hts : Agrees ts) (t : Token) (h : Stands fs stack) (f : Formula) :
    flat.Runs (((Slot.ofFrames fs).holding, .inr f) :: stack) (t :: ts) r ↔
      verdict ⟨fs, some f⟩ (t :: ts) = r.mapError syntaxError := by
  have hhead : (t :: ts).head?.map flat.kind = some t.kind := rfl
  cases hk : t.kind with
  | binary op =>
    rw [hk] at hhead
    obtain ⟨stack', h', hbefore⟩ := h.runs_before_iff f (t :: ts) hhead
    rcases hg : fillWhile (bindsBefore op) f fs with ⟨g, rest⟩
    rw [hg] at h' hbefore
    have hread := Reading.shift_binary hk hg
    have hstop : ∀ frame rest', rest = frame :: rest' → frame.bindsBefore op = false := by
      rintro frame rest' rfl
      exact fillWhile_stops hg
    rw [hbefore, runs_binary_iff hk hstop, verdict_cons_of_some hread]
    exact hts.awaiting (.leftOf h') r
  | closeParen =>
    rw [hk] at hhead
    obtain ⟨stack', h', hgroup⟩ := h.runs_group_iff f (t :: ts) (hhead ▸ rfl) (hhead ▸ nofun)
    rcases fillWhile_not_isParen f fs with ⟨g, hg⟩ | ⟨g, rest, hg⟩
    · rw [hg] at h' hgroup
      have hread := Reading.shift_closeParen_eq_none hk hg
      have hno := not_acts_whole_closeParen
      rw [← hhead] at hno
      rw [hgroup, Parser.runs_reject_iff hno, verdict_cons_of_none hread]
      exact eq_error_iff
    · rw [hg] at h' hgroup
      have hread := Reading.shift_closeParen hk hg
      obtain ⟨stack'', h'', hclose⟩ := h'.runs_close_iff (f := g) (t := t) hk
      rw [hgroup, verdict_cons_of_some hread, ← hts.holding h'']
      exact hclose r
  | name | truth b | negation | openParen | illegal =>
    have hread : (⟨fs, some f⟩ : Reading).shift t = none :=
      Reading.shift_some_eq_none (by simp [hk, Token.Kind.isOperand])
    have hno : follows .expr ((t :: ts).head?.map flat.kind) = false := by
      rw [hhead, hk]
      rfl
    rw [Parser.runs_reject_iff (not_acts_holding hno), verdict_cons_of_none hread]
    exact eq_error_iff

theorem agrees (ts : List Token) : Agrees ts := by
  induction ts with
  | nil => exact agrees_nil
  | cons t ts ih => exact ⟨fun h _ => ih.cons_awaiting t h, fun h f _ => ih.cons_holding t h f⟩

/-- **The reader is the LALR(1) parser of the flat grammar**: the run of the automaton on any tokens
ends with the formula that is read, or at the token that is the error. -/
theorem runs_iff_ofTokens (ts : List Token) (r : Except (Option Token) Formula) :
    flat.Runs [] ts r ↔ Formula.ofTokens ts = r.mapError syntaxError := by
  rw [(agrees ts).awaiting .nil, ofTokens_eq_verdict]
  exact Iff.rfl

theorem exists_verdict (q : Reading) (ts : List Token) :
    ∃ r : Except (Option Token) Formula, verdict q ts = r.mapError syntaxError := by
  induction ts generalizing q with
  | nil =>
    show ∃ r : Except (Option Token) Formula, q.finish = r.mapError syntaxError
    unfold Reading.finish
    split
    · exact ⟨.error none, rfl⟩
    · split
      · exact ⟨.ok _, rfl⟩
      · exact ⟨.error none, rfl⟩
  | cons t ts ih =>
    cases h : q.shift t with
    | none => exact ⟨.error (some t), verdict_cons_of_none h⟩
    | some q' =>
      rw [verdict_cons_of_some h]
      exact ih q'

/-- **The automaton comes to an end** on all tokens: no reduction is ever stuck, and there is no
endless row of them. -/
theorem exists_runs (ts : List Token) : ∃ r, flat.Runs [] ts r := by
  obtain ⟨r, h⟩ := exists_verdict ⟨[], none⟩ ts
  exact ⟨r, ((agrees ts).awaiting .nil r).mpr h⟩

theorem parse_eq_ok_iff_runs {text : List Char} {maxDepth : Int} :
    Formula.parse text maxDepth = .ok f ↔
      flat.Runs [] (Token.scan text) (.ok f) ∧ (f.depth : Int) ≤ maxDepth := by
  rw [Formula.parse_eq_ok_iff, runs_iff_ofTokens]
  exact Iff.rfl

/-- The limit on the depth adds no syntax error. -/
theorem parse_eq_syntaxError_iff {text : List Char} {maxDepth : Int} {o : Option Token} :
    Formula.parse text maxDepth = .error (syntaxError o) ↔
      Formula.ofTokens (Token.scan text) = .error (syntaxError o) := by
  rw [Formula.parse]
  cases Formula.ofTokens (Token.scan text) with
  | ok f =>
    constructor
    · intro h
      simp only at h
      split at h
      · cases o <;> cases h
      · cases h
    · intro h
      cases h
  | error e => exact Iff.rfl

theorem parse_eq_error_iff_runs {text : List Char} {maxDepth : Int} {o : Option Token} :
    Formula.parse text maxDepth = .error (syntaxError o) ↔
      flat.Runs [] (Token.scan text) (.error o) := by
  rw [runs_iff_ofTokens, parse_eq_syntaxError_iff]
  exact Iff.rfl

end Propositional.Lalr
