import Propositional.Proofs.Grammar.Automaton
import Propositional.Proofs.Grammar.Stratified

/-!
# Reading is the stratified grammar

The reader knows no strata: it holds frames that wait for their operand, and fills those that bind
more tightly than the connective that comes next. This module shows that it reads a list of tokens
as `f` exactly if the stratified grammar derives `f` from them.

* `Derives.reads` (completeness): tokens that `L` derives are read onto any frames whose innermost
  one takes an operand of `L`. The frames that are still open after them bind at least as `L` does,
  so whatever closes `L` fills them (`Fills`).
* `Reading.Covers` (the invariant for soundness): the frames split the tokens read so far into the
  parts that they wait with, and each frame takes what the next inner one makes. `Covers.shift`
  keeps it for one token and `Covers.shiftAll` for all of them; both rest on `Spans.fillWhile`.
* `ofTokens_eq_ok_iff`: both directions together.
* `parse_eq_ok_iff_derives`: the whole contract of `Formula.parse`, with the limit on the depth,
  the uniqueness of the derived formula and the error on every other text.
-/

namespace Propositional

open Propositional.Frame Propositional.Reading

/-! ## What a frame takes and makes -/

namespace Frame

/-- The stratum of a frame with its operand put in. -/
def stratum : Frame → Stratum
  | negation => .negation
  | leftOf op _ => op.stratum
  | paren => .atom

/-- What a frame takes as its operand. -/
def demand : Frame → Stratum
  | negation => .negation
  | leftOf op _ => op.rightStratum
  | paren => .implication

/-- What the innermost frame takes; a whole expression where nothing is open. -/
def demandOf : List Frame → Stratum
  | [] => .implication
  | frame :: _ => frame.demand

/-- **A connective closes a frame exactly if the frame takes something tighter.** -/
theorem bindsBefore_iff {op : Connective} {frame : Frame} :
    frame.bindsBefore op = true ↔ op.precedence < frame.demand.strength := by
  cases frame with
  | negation => cases op <;> decide
  | leftOf inner left => cases op <;> cases inner <;> simp [bindsBefore, demand,
      Connective.precedence, Connective.groupsRight, Connective.rightStratum, Stratum.strength]
  | paren => cases op <;> decide

theorem demand_le_negation (frame : Frame) :
    frame.demand.strength ≤ Stratum.negation.strength := by
  cases frame with
  | negation => exact Nat.le_refl _
  | leftOf op left => exact op.rightStratum_le_negation
  | paren => decide

/-- No frame takes less than a negation, so a negation can be put into all of them. -/
theorem demandOf_le_negation (fs : List Frame) :
    (demandOf fs).strength ≤ Stratum.negation.strength := by
  cases fs with
  | nil => decide
  | cons frame fs => exact frame.demand_le_negation

/-- A frame that makes what stands to the left of `op` is closed by `op`. -/
theorem bindsBefore_of_leftStratum_le {op : Connective} {frame : Frame}
    (hp : frame.isParen = false) (h : op.leftStratum.strength ≤ frame.stratum.strength) :
    frame.bindsBefore op = true := by
  cases frame with
  | negation => rfl
  | leftOf inner left =>
    revert h
    cases op <;> cases inner <;> simp [bindsBefore, stratum, Connective.precedence,
      Connective.groupsRight, Connective.leftStratum, Connective.stratum, Stratum.strength]
  | paren => cases hp

/-- A frame that is closed by `op` makes what can stand to the left of `op`. -/
theorem leftStratum_le_of_bindsBefore {op : Connective} {frame : Frame}
    (h : frame.bindsBefore op = true) :
    op.leftStratum.strength ≤ frame.stratum.strength := by
  cases frame with
  | negation => cases op <;> decide
  | leftOf inner left =>
    revert h
    cases op <;> cases inner <;> simp [bindsBefore, stratum, Connective.precedence,
      Connective.groupsRight, Connective.leftStratum, Connective.stratum, Stratum.strength]
  | paren => cases h

variable {p : Frame → Bool} {f : Formula} {frame : Frame} {fs : List Frame}

theorem fillWhile_cons_of_pos (h : p frame = true) :
    fillWhile p f (frame :: fs) = fillWhile p (frame.fill f) fs := by
  rw [fillWhile, if_pos h]

theorem fillWhile_cons_of_neg (h : p frame = false) :
    fillWhile p f (frame :: fs) = (f, frame :: fs) := by
  rw [fillWhile, h]; rfl

/-- The first frame that is not filled is the one at which the filling stops. -/
theorem demandOf_fillWhile_le {op : Connective} (f : Formula) (fs : List Frame) :
    (demandOf (fillWhile (bindsBefore op) f fs).2).strength ≤ op.precedence := by
  induction fs generalizing f with
  | nil => exact op.one_le_precedence
  | cons frame fs ih =>
    by_cases h : frame.bindsBefore op = true
    · rw [fillWhile_cons_of_pos h]
      exact ih (frame.fill f)
    · rw [fillWhile_cons_of_neg (Bool.eq_false_iff.mpr h)]
      rw [bindsBefore_iff] at h
      exact Nat.le_of_not_lt h

/-- A connective fills no frame that takes something as loose as the connective. -/
theorem fillWhile_bindsBefore_of_demandOf_le {op : Connective}
    (h : (demandOf fs).strength ≤ op.precedence) :
    fillWhile (bindsBefore op) f fs = (f, fs) := by
  cases fs with
  | nil => rfl
  | cons frame fs =>
    refine fillWhile_cons_of_neg ?_
    rw [← Bool.not_eq_true, bindsBefore_iff]
    exact Nat.not_lt.mpr h

/-- Frames that are no parentheses do not count. -/
theorem countP_fillWhile (hp : ∀ frame, p frame = true → frame.isParen = false) (f : Formula)
    (fs : List Frame) :
    (fillWhile p f fs).2.countP isParen = fs.countP isParen := by
  induction fs generalizing f with
  | nil => rfl
  | cons frame fs ih =>
    rw [fillWhile]
    split
    · rename_i h
      rw [ih, List.countP_cons_of_neg (by rw [hp frame h]; exact Bool.false_ne_true)]
    · rfl

/-- The frames are filled up to a parenthesis exactly if one is counted. -/
theorem fillWhile_not_isParen_countP (f : Formula) (fs : List Frame) :
    (∃ g, fillWhile (fun frame => !frame.isParen) f fs = (g, []) ∧ fs.countP isParen = 0) ∨
      ∃ g rest, fillWhile (fun frame => !frame.isParen) f fs = (g, .paren :: rest) ∧
        fs.countP isParen = rest.countP isParen + 1 := by
  have hcount := countP_fillWhile (p := fun frame => !frame.isParen)
    (fun frame h => by simpa using h) f fs
  rcases fillWhile_not_isParen f fs with ⟨g, hg⟩ | ⟨g, rest, hg⟩
  · rw [hg] at hcount
    exact Or.inl ⟨g, hg, hcount.symm⟩
  · rw [hg] at hcount
    exact Or.inr ⟨g, rest, hg, by rw [← hcount]; exact List.countP_cons_of_pos rfl⟩

end Frame

/-! ## Completeness: what the grammar derives is read -/

variable {L M : Stratum} {op : Connective} {ts us vs : List Token} {t : Token} {f g : Formula}
  {fs gs : List Frame}

/-- Whatever closes all open frames of the stratum `L` makes `f` out of `g` and the frames `gs`. -/
def Fills (L : Stratum) (gs : List Frame) (g f : Formula) : Prop :=
  ∀ (p : Frame → Bool) (fs : List Frame),
    (∀ frame : Frame, frame.isParen = false → L.strength ≤ frame.stratum.strength →
      p frame = true) →
    fillWhile p g (gs ++ fs) = fillWhile p f fs

theorem Fills.nil (L : Stratum) (f : Formula) : Fills L [] f f := fun _ _ _ => rfl

theorem Fills.weaken (h : Fills L gs g f) (hM : M.strength ≤ L.strength) : Fills M gs g f :=
  fun p fs hp => h p fs fun frame hparen hL => hp frame hparen (Nat.le_trans hM hL)

theorem Fills.snoc (frame : Frame) (h : Fills L gs g f) (hL : frame.stratum.strength ≤ L.strength)
    (hparen : frame.isParen = false) : Fills frame.stratum (gs ++ [frame]) g (frame.fill f) := by
  intro p fs hp
  rw [List.append_assoc, h.weaken hL p _ hp]
  exact fillWhile_cons_of_pos (hp frame hparen (Nat.le_refl _))

/-- The tokens are read onto the frames `fs`, up to frames of the stratum `L` that are not closed
yet and will make `f`. -/
def Reads (L : Stratum) (fs : List Frame) (ts : List Token) (f : Formula) : Prop :=
  ∃ gs g, shiftAll ⟨fs, none⟩ ts = .ok ⟨gs ++ fs, some g⟩ ∧ Fills L gs g f

theorem Reads.weaken (h : Reads L fs ts f) (hM : M.strength ≤ L.strength) : Reads M fs ts f := by
  obtain ⟨gs, g, hrun, hfill⟩ := h
  exact ⟨gs, g, hrun, hfill.weaken hM⟩

theorem Reads.neg (ht : t.kind = .negation) (h : Reads .negation (.negation :: fs) ts f) :
    Reads .negation fs (t :: ts) (.neg f) := by
  obtain ⟨gs, g, hrun, hfill⟩ := h
  refine ⟨gs ++ [Frame.negation], g, ?_, hfill.snoc .negation (Nat.le_refl _) rfl⟩
  rw [shiftAll, shift_negation ht]
  simp only [hrun, List.append_assoc, List.cons_append, List.nil_append]

theorem Reads.paren {u : Token} (ht : t.kind = .openParen) (hu : u.kind = .closeParen)
    (h : Reads .implication (.paren :: fs) ts f) : Reads .atom fs (t :: ts ++ [u]) f := by
  obtain ⟨gs, g, hrun, hfill⟩ := h
  refine ⟨[], f, ?_, .nil .atom f⟩
  have hclose : fillWhile (fun frame => !frame.isParen) g (gs ++ .paren :: fs) =
      (f, .paren :: fs) := by
    rw [hfill _ _ fun frame hparen _ => by rw [hparen]; rfl]
    exact fillWhile_cons_of_neg rfl
  rw [List.cons_append, shiftAll, shift_openParen ht]
  simp only [shiftAll_append, hrun, Except.bind, shiftAll, shift_closeParen hu hclose,
    List.nil_append]

/-- Left operand, connective and right operand are read one after the other: the connective closes
just the frames of its left operand. -/
theorem Reads.binary (ht : t.kind = .binary op) (hfs : (demandOf fs).strength ≤ op.precedence)
    (hf : Reads op.leftStratum fs ts f)
    (hg : Reads op.rightStratum (.leftOf op f :: fs) us g) :
    Reads op.stratum fs (ts ++ t :: us) (.binary op f g) := by
  obtain ⟨gs, f', hrunf, hfillf⟩ := hf
  obtain ⟨hs, g', hrung, hfillg⟩ := hg
  have hclose : fillWhile (bindsBefore op) f' (gs ++ fs) = (f, fs) := by
    rw [hfillf _ _ fun frame hparen hL => bindsBefore_of_leftStratum_le hparen hL]
    exact fillWhile_bindsBefore_of_demandOf_le hfs
  refine ⟨hs ++ [Frame.leftOf op f], g', ?_,
    hfillg.snoc (.leftOf op f) op.stratum_le_rightStratum rfl⟩
  rw [shiftAll_append, hrunf]
  simp only [Except.bind, shiftAll, shift_binary ht hclose, hrung, List.append_assoc,
    List.cons_append, List.nil_append]

/-- **Completeness**: what `L` derives is read onto all frames that take an operand of `L`. -/
theorem Derives.reads (h : Derives L ts f) :
    ∀ fs : List Frame, (demandOf fs).strength ≤ L.strength → Reads L fs ts f := by
  induction h with
  | ofDisjunction _ ih | ofConjunction _ ih | ofNegation _ ih | ofAtom _ ih =>
    exact fun fs hfs => (ih fs (Nat.le_trans hfs (by decide))).weaken (by decide)
  | implies _ ht _ ihf ihg =>
    exact fun fs hfs => .binary ht hfs (ihf fs (Nat.le_trans hfs (by decide)))
      (ihg _ (Nat.le_refl _))
  | or _ ht _ ihf ihg =>
    exact fun fs hfs => .binary ht hfs (ihf fs hfs) (ihg _ (Nat.le_refl _))
  | and _ ht _ ihf ihg =>
    exact fun fs hfs => .binary ht hfs (ihf fs hfs) (ihg _ (Nat.le_refl _))
  | neg ht _ ih => exact fun fs _ => .neg ht (ih _ (Nat.le_refl _))
  | name ht =>
    intro fs _
    refine ⟨[], _, ?_, .nil .atom _⟩
    rw [shiftAll, shift_name ht]
    rfl
  | truth ht =>
    intro fs _
    refine ⟨[], _, ?_, .nil .atom _⟩
    rw [shiftAll, shift_truth ht]
    rfl
  | paren ht _ hu ih => exact fun fs _ => .paren ht hu (ih _ (Nat.le_refl _))

theorem ofTokens_of_derives (h : Derives .implication ts f) : Formula.ofTokens ts = .ok f := by
  obtain ⟨gs, g, hrun, hfill⟩ := h.reads [] (Nat.le_refl _)
  have hclose : fillWhile (fun frame => !frame.isParen) g gs = (f, []) := by
    have := hfill (fun frame => !frame.isParen) [] fun frame hparen _ => by rw [hparen]; rfl
    rwa [List.append_nil] at this
  rw [List.append_nil] at hrun
  simp only [Formula.ofTokens, start, hrun, finish_of_nil hclose]

/-! ## Soundness: what is read is derived -/

/-- The tokens with which the frames were opened, outermost first. A connective that waits for its
right operand was read only after all that binds more tightly had been closed. -/
inductive Spans : List Frame → List Token → Prop
  | nil : Spans [] []
  | negation {fs : List Frame} {ts : List Token} {t : Token} :
      Spans fs ts → t.kind = .negation → Spans (.negation :: fs) (ts ++ [t])
  | leftOf {fs : List Frame} {ts us : List Token} {t : Token} {op : Connective} {f : Formula} :
      Spans fs ts → (demandOf fs).strength ≤ op.precedence → Derives op.leftStratum us f →
        t.kind = .binary op → Spans (.leftOf op f :: fs) (ts ++ (us ++ [t]))
  | paren {fs : List Frame} {ts : List Token} {t : Token} :
      Spans fs ts → t.kind = .openParen → Spans (.paren :: fs) (ts ++ [t])

/-- **The invariant of a reading**: its frames span the tokens `ts` up to its operand, which is what
an atom derives. -/
def Covers (r : Reading) (ts : List Token) : Prop :=
  match r.operand with
  | none => Spans r.frames ts
  | some f => ∃ us vs, ts = us ++ vs ∧ Spans r.frames us ∧ Derives .atom vs f

/-- **Filling frames stays within the grammar.** If only frames are filled that make something of
the stratum `M` or tighter, the operand that comes out is derived by `M`, and also by what the next
frame takes. -/
theorem Spans.fillWhile {p : Frame → Bool}
    (hp : ∀ frame, p frame = true →
      frame.isParen = false ∧ M.strength ≤ frame.stratum.strength)
    (h : Spans fs us) (hf : Derives L vs f) (hL : (demandOf fs).strength ≤ L.strength)
    (hM : M.strength ≤ L.strength) :
    ∃ us' vs', us ++ vs = us' ++ vs' ∧ Spans (Frame.fillWhile p f fs).2 us' ∧
      Derives M vs' (Frame.fillWhile p f fs).1 ∧
      Derives (demandOf (Frame.fillWhile p f fs).2) vs' (Frame.fillWhile p f fs).1 := by
  induction h generalizing f vs L with
  | nil => exact ⟨[], vs, rfl, .nil, hf.weaken hM, hf.weaken hL⟩
  | @negation fs ts t hspan ht ih =>
    cases hpf : p .negation with
    | false =>
      rw [fillWhile_cons_of_neg hpf]
      exact ⟨_, _, rfl, .negation hspan ht, hf.weaken hM, hf.weaken hL⟩
    | true =>
      rw [fillWhile_cons_of_pos hpf, List.append_assoc]
      exact ih (.neg ht (hf.weaken hL)) (demandOf_le_negation fs) (hp _ hpf).2
  | @leftOf fs ts us t op l hspan hfs hl ht ih =>
    cases hpf : p (.leftOf op l) with
    | false =>
      rw [fillWhile_cons_of_neg hpf]
      exact ⟨_, _, rfl, .leftOf hspan hfs hl ht, hf.weaken hM, hf.weaken hL⟩
    | true =>
      rw [fillWhile_cons_of_pos hpf, List.append_assoc, List.append_assoc]
      refine ih (.binary hl ht (hf.weaken hL)) ?_ (hp _ hpf).2
      rw [Connective.strength_stratum]
      exact hfs
  | @paren fs ts t hspan ht ih =>
    cases hpf : p .paren with
    | false =>
      rw [fillWhile_cons_of_neg hpf]
      exact ⟨_, _, rfl, .paren hspan ht, hf.weaken hM, hf.weaken hL⟩
    | true => cases (hp _ hpf).1

/-- All frames up to the next parenthesis may be filled with an operand. -/
theorem Spans.fillGroup (h : Spans fs us) (hf : Derives .atom vs f) :
    ∃ us' vs', us ++ vs = us' ++ vs' ∧
      Spans (Frame.fillWhile (fun frame => !frame.isParen) f fs).2 us' ∧
      Derives .implication vs' (Frame.fillWhile (fun frame => !frame.isParen) f fs).1 := by
  obtain ⟨us', vs', heq, hspan, hM, -⟩ := h.fillWhile (M := .implication)
    (p := fun frame => !frame.isParen)
    (fun frame hpf => ⟨by simpa using hpf, frame.stratum.one_le_strength⟩) hf
    (Nat.le_trans (demandOf_le_negation fs) (by decide)) (by decide)
  exact ⟨us', vs', heq, hspan, hM⟩

/-- A connective takes what it has closed as its left operand. -/
theorem Spans.fillBefore (h : Spans fs us) (hf : Derives .atom vs f) (ht : t.kind = .binary op) :
    Spans (.leftOf op (Frame.fillWhile (bindsBefore op) f fs).1 ::
      (Frame.fillWhile (bindsBefore op) f fs).2) (us ++ vs ++ [t]) := by
  obtain ⟨us', vs', heq, hspan, hM, -⟩ := h.fillWhile (M := op.leftStratum) (p := bindsBefore op)
    (fun frame hpf => ⟨isParen_of_bindsBefore hpf, leftStratum_le_of_bindsBefore hpf⟩) hf
    (Nat.le_trans (demandOf_le_negation fs) (by decide)) (by cases op <;> decide)
  rw [heq, List.append_assoc]
  exact .leftOf hspan (demandOf_fillWhile_le f fs) hM ht

/-- **One token keeps the invariant.** -/
theorem Covers.shift {r r' : Reading} (h : Covers r ts) (hshift : r.shift t = some r') :
    Covers r' (ts ++ [t]) := by
  obtain ⟨fs, operand⟩ := r
  cases operand with
  | none =>
    cases hk : t.kind with
    | name =>
      rw [shift_name hk] at hshift
      obtain rfl := Option.some.inj hshift
      exact ⟨ts, [t], rfl, h, .name hk⟩
    | truth b =>
      rw [shift_truth hk] at hshift
      obtain rfl := Option.some.inj hshift
      exact ⟨ts, [t], rfl, h, .truth hk⟩
    | negation =>
      rw [shift_negation hk] at hshift
      obtain rfl := Option.some.inj hshift
      exact .negation h hk
    | openParen =>
      rw [shift_openParen hk] at hshift
      obtain rfl := Option.some.inj hshift
      exact .paren h hk
    | binary op | closeParen | illegal =>
      rw [shift_none_eq_none (by simp [hk])] at hshift
      cases hshift
  | some f =>
    obtain ⟨us, vs, rfl, hspan, hf⟩ := h
    cases hk : t.kind with
    | binary op =>
      rw [shift_binary hk rfl] at hshift
      obtain rfl := Option.some.inj hshift
      exact hspan.fillBefore hf hk
    | closeParen =>
      obtain ⟨us', vs', heq, hspan', hf'⟩ := hspan.fillGroup hf
      rcases fillWhile_not_isParen f fs with ⟨g, hg⟩ | ⟨g, rest, hg⟩
      · rw [shift_closeParen_eq_none hk hg] at hshift
        cases hshift
      · rw [shift_closeParen hk hg] at hshift
        obtain rfl := Option.some.inj hshift
        rw [hg] at hspan' hf'
        -- the parenthesis that is closed was opened just before the tokens of the group
        cases hspan' with
        | @paren _ ws u hrest hu =>
          refine ⟨ws, u :: vs' ++ [t], ?_, hrest, .paren hu hf' hk⟩
          rw [heq]
          simp only [List.append_assoc, List.cons_append, List.nil_append]
    | name | truth b | negation | openParen | illegal =>
      rw [shift_some_eq_none (by simp [hk, Token.Kind.isOperand])] at hshift
      cases hshift

/-- **The invariant holds of every reading** that the tokens lead to. -/
theorem Covers.shiftAll {r r' : Reading} (h : Covers r ts) (hrun : r.shiftAll us = .ok r') :
    Covers r' (ts ++ us) := by
  induction us generalizing r ts with
  | nil =>
    obtain rfl := Except.ok.inj hrun
    rwa [List.append_nil]
  | cons u us ih =>
    unfold Reading.shiftAll at hrun
    split at hrun
    · rename_i r'' hshift
      rw [List.append_cons]
      exact ih (h.shift hshift) hrun
    · cases hrun

theorem Covers.finish {r : Reading} (h : Covers r ts) (hfin : r.finish = .ok f) :
    Derives .implication ts f := by
  obtain ⟨fs, _ | g⟩ := r
  · cases hfin
  · obtain ⟨us, vs, rfl, hspan, hg⟩ := h
    obtain ⟨us', vs', heq, hspan', hf'⟩ := hspan.fillGroup hg
    rcases fillWhile_not_isParen g fs with ⟨g', hg'⟩ | ⟨g', rest, hg'⟩
    · rw [finish_of_nil hg'] at hfin
      obtain rfl := Except.ok.inj hfin
      rw [hg'] at hspan' hf'
      cases hspan'
      rw [heq]
      exact hf'
    · rw [finish_of_paren hg'] at hfin
      cases hfin

theorem derives_of_ofTokens (h : Formula.ofTokens ts = .ok f) : Derives .implication ts f := by
  obtain ⟨r, hrun, hfin⟩ := Formula.ofTokens_eq_ok_iff_shiftAll.mp h
  have hstart : Covers start [] := .nil
  exact (hstart.shiftAll hrun).finish hfin

/-! ## Exactness -/

/-- **Reading is exact**: the formula that is read is the one that the grammar derives. -/
theorem ofTokens_eq_ok_iff : Formula.ofTokens ts = .ok f ↔ Derives .implication ts f :=
  ⟨derives_of_ofTokens, ofTokens_of_derives⟩

/-- **The grammar is unambiguous**, because the reader has one answer. -/
theorem Derives.unique (hf : Derives L ts f) (hg : Derives M ts g) : f = g := by
  have hf := ofTokens_of_derives (hf.weaken L.one_le_strength)
  have hg := ofTokens_of_derives (hg.weaken M.one_le_strength)
  exact Except.ok.inj (hf.symm.trans hg)

/-- **Parsing implements the stratified grammar exactly.** A text is parsed as `f` if and only if
it has no illegal character, its tokens derive `f` and `f` is not too deep; and this is what the
LALR(1) automaton of the flat grammar accepts, with its conflicts resolved by precedence. Tokens
derive at most one formula, from whatever strata; and every text without such a formula is an
error. -/
theorem Formula.parse_eq_ok_iff_derives (text : List Char) (maxDepth : Int) :
    (∀ f, Formula.parse text maxDepth = .ok f ↔
        (∀ t ∈ Token.scan text, t.kind ≠ .illegal) ∧
          Derives .implication (Token.scan text) f ∧ (f.depth : Int) ≤ maxDepth) ∧
      (∀ f, Formula.parse text maxDepth = .ok f ↔
        Lalr.flat.Runs [] (Token.scan text) (.ok f) ∧ (f.depth : Int) ≤ maxDepth) ∧
      (∀ L M ts f g, Derives L ts f → Derives M ts g → f = g) ∧
      ((¬ ∃ f, (∀ t ∈ Token.scan text, t.kind ≠ .illegal) ∧
          Derives .implication (Token.scan text) f ∧ (f.depth : Int) ≤ maxDepth) →
        ∃ e, Formula.parse text maxDepth = .error e) := by
  have hiff : ∀ f, Formula.parse text maxDepth = .ok f ↔
      (∀ t ∈ Token.scan text, t.kind ≠ .illegal) ∧
        Derives .implication (Token.scan text) f ∧ (f.depth : Int) ≤ maxDepth := by
    intro f
    rw [Formula.parse_eq_ok_iff, ofTokens_eq_ok_iff]
    exact ⟨fun ⟨hd, hle⟩ => ⟨hd.legal, hd, hle⟩, fun ⟨_, hd, hle⟩ => ⟨hd, hle⟩⟩
  refine ⟨hiff, fun f => Lalr.parse_eq_ok_iff_runs, fun _ _ _ _ _ hf hg => hf.unique hg,
    fun hno => ?_⟩
  cases h : Formula.parse text maxDepth with
  | ok f => exact absurd ⟨f, (hiff f).mp h⟩ hno
  | error e => exact ⟨e, rfl⟩

/-- The negation of `¬A⋀B` ends before the connective. -/
theorem Formula.parse_derives_negated_operand :
    let f : Formula := .binary .and (.neg (.var "A")) (.var "B")
    Formula.parse "¬A⋀B".toList 3 = .ok f ∧ ∃ e, Formula.parse "¬A⋀B".toList 2 = .error e := by
  intro f
  have hscan : Token.scan "¬A⋀B".toList = [⟨.negation, ['¬'], 0⟩, ⟨.name, ['A'], 1⟩] ++
      ⟨.binary .and, ['⋀'], 2⟩ :: [⟨.name, ['B'], 3⟩] := by decide +kernel
  have hd : Derives .implication (Token.scan "¬A⋀B".toList) f := by
    have hleft : Derives .negation [⟨.negation, ['¬'], 0⟩, ⟨.name, ['A'], 1⟩] (.neg (.var "A")) :=
      .neg rfl (.ofAtom (.name rfl))
    have hright : Derives .negation [⟨.name, ['B'], 3⟩] (.var "B") := .ofAtom (.name rfl)
    rw [hscan]
    exact .ofDisjunction (.ofConjunction (.and (.ofNegation hleft) rfl hright))
  have h₃ := Formula.parse_eq_ok_iff_derives "¬A⋀B".toList 3
  have h₂ := Formula.parse_eq_ok_iff_derives "¬A⋀B".toList 2
  refine ⟨(h₃.1 f).mpr ⟨hd.legal, hd, by decide +kernel⟩, h₂.2.2.2 ?_⟩
  rintro ⟨g, -, hg, hdepth⟩
  obtain rfl := h₂.2.2.1 _ _ _ _ _ hd hg
  exact absurd hdepth (by decide +kernel)

end Propositional
