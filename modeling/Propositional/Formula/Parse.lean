import Propositional.Formula.Render
import Propositional.Formula.Traversal
import Propositional.Token.Scan

/-!
# Reading a formula from its tokens

Tokens are shifted one by one onto a partial reading: the frames of what has been opened, innermost
first, and the operand that has just been completed, if the next token may be a connective. A
connective first closes every frame that binds its operand more tightly, and so the precedence and
grouping of the connectives decide the tree. The first token that cannot be shifted is the error.

`parse` is that of the Veritas specification (section 4.3), with the limit on depth. The grammar
given there is one nonterminal with a table of precedences, left to a generator of LALR(1) parsers
(SLY). The frames are that parser's stack without its state numbers: `Lalr.runs_iff_ofTokens` says
that the automaton of the grammar and `ofTokens` agree on every sequence of tokens, in the tree and
in the token that is the error.

* `Frame.fillWhile_stops`: what is not filled begins with a frame that is not to be filled.
* `Reading.shift_name` and its companions: what one token does, by its kind.
* `Reading.shiftAll_append`: tokens can be shifted in two portions.
* `Formula.parse_eq_ok_iff`: parsing is reading, up to the limit on the depth.
-/

namespace Propositional

/-- What has been opened and waits for the operand on its right. -/
inductive Frame where
  | negation
  | leftOf (op : Connective) (left : Formula)
  | paren
deriving DecidableEq

namespace Frame

/-- The frame with its operand put in. -/
def fill : Frame → Formula → Formula
  | negation, f => .neg f
  | leftOf op l, f => .binary op l f
  | paren, f => f

/-- Whether an operand between the frame and `op` belongs to the frame. -/
def bindsBefore (op : Connective) : Frame → Bool
  | negation => true
  | leftOf inner _ =>
    op.precedence < inner.precedence ||
      (op.precedence == inner.precedence && !op.groupsRight)
  | paren => false

/-- The frame is an open parenthesis. No connective closes it. -/
def isParen : Frame → Bool
  | paren => true
  | _ => false

theorem isParen_of_bindsBefore {op : Connective} {frame : Frame}
    (h : frame.bindsBefore op = true) : frame.isParen = false := by
  cases frame with
  | negation => rfl
  | leftOf inner left => rfl
  | paren => cases h

/-- Fills the innermost frames with `f` for as long as they satisfy `p`. -/
def fillWhile (p : Frame → Bool) (f : Formula) : List Frame → Formula × List Frame
  | [] => (f, [])
  | frame :: rest => if p frame then fillWhile p (frame.fill f) rest else (f, frame :: rest)

/-- The filling stops at a frame that does not satisfy `p`. -/
theorem fillWhile_stops {p : Frame → Bool} {f g : Formula} {fs rest : List Frame} {frame : Frame}
    (h : fillWhile p f fs = (g, frame :: rest)) : p frame = false := by
  induction fs generalizing f with
  | nil => cases h
  | cons first fs ih =>
    rw [fillWhile] at h
    split at h
    · exact ih h
    · rename_i hfirst
      cases h
      exact Bool.eq_false_iff.mpr hfirst

/-- All frames are filled up to the innermost parenthesis, or all of them. -/
theorem fillWhile_not_isParen (f : Formula) (fs : List Frame) :
    (∃ g, fillWhile (fun frame => !frame.isParen) f fs = (g, [])) ∨
      ∃ g rest, fillWhile (fun frame => !frame.isParen) f fs = (g, .paren :: rest) := by
  rcases hfill : fillWhile (fun frame => !frame.isParen) f fs with ⟨g, _ | ⟨frame, rest⟩⟩
  · exact Or.inl ⟨g, rfl⟩
  · have hstop := fillWhile_stops hfill
    cases frame with
    | paren => exact Or.inr ⟨g, rest, rfl⟩
    | _ => cases hstop

end Frame

/-- An expression read from the left up to some token. -/
structure Reading where
  frames : List Frame
  operand : Option Formula
deriving DecidableEq

/-- Why tokens are not read as a formula. -/
inductive ParseError where
  | unexpectedToken (token : Token)
  | unexpectedEnd
  | tooDeep (depth : Nat) (limit : Int)
deriving DecidableEq

/-- The error in words. -/
def ParseError.message : ParseError → String
  | unexpectedToken t =>
    let text := String.ofList t.text
    s!"Syntax error near '{text}' (type: {t.kind.label}) at position {t.start}"
  | unexpectedEnd => "Syntax error: Unexpected end of expression"
  | tooDeep depth limit => s!"Expression nesting depth {depth} exceeds the limit of {limit}"

namespace Reading

/-- Nothing has been opened or read. -/
def start : Reading := ⟨[], none⟩

/-- The reading with one more token, if an expression can go on with it. -/
def shift (r : Reading) (t : Token) : Option Reading :=
  match r.operand, t.kind with
  | none, .name => some ⟨r.frames, some (.var (String.ofList t.text))⟩
  | none, .truth b => some ⟨r.frames, some (.const b)⟩
  | none, .negation => some ⟨.negation :: r.frames, none⟩
  | none, .openParen => some ⟨.paren :: r.frames, none⟩
  | some f, .binary op =>
    let (left, rest) := Frame.fillWhile (Frame.bindsBefore op) f r.frames
    some ⟨.leftOf op left :: rest, none⟩
  | some f, .closeParen =>
    match Frame.fillWhile (fun frame => !frame.isParen) f r.frames with
    | (g, .paren :: rest) => some ⟨rest, some g⟩
    | _ => none
  | _, _ => none

section Shift

variable {fs rest : List Frame} {f g : Formula} {t : Token}

theorem shift_name (h : t.kind = .name) :
    shift ⟨fs, none⟩ t = some ⟨fs, some (.var (String.ofList t.text))⟩ := by
  simp only [shift, h]

theorem shift_truth {b : Bool} (h : t.kind = .truth b) :
    shift ⟨fs, none⟩ t = some ⟨fs, some (.const b)⟩ := by
  simp only [shift, h]

theorem shift_negation (h : t.kind = .negation) :
    shift ⟨fs, none⟩ t = some ⟨.negation :: fs, none⟩ := by
  simp only [shift, h]

theorem shift_openParen (h : t.kind = .openParen) :
    shift ⟨fs, none⟩ t = some ⟨.paren :: fs, none⟩ := by
  simp only [shift, h]

theorem shift_binary {op : Connective} (h : t.kind = .binary op)
    (hf : Frame.fillWhile (Frame.bindsBefore op) f fs = (g, rest)) :
    shift ⟨fs, some f⟩ t = some ⟨.leftOf op g :: rest, none⟩ := by
  simp only [shift, h, hf]

theorem shift_closeParen (h : t.kind = .closeParen)
    (hf : Frame.fillWhile (fun frame => !frame.isParen) f fs = (g, .paren :: rest)) :
    shift ⟨fs, some f⟩ t = some ⟨rest, some g⟩ := by
  simp only [shift, h, hf]

theorem shift_closeParen_eq_none (h : t.kind = .closeParen)
    (hf : Frame.fillWhile (fun frame => !frame.isParen) f fs = (g, [])) :
    shift ⟨fs, some f⟩ t = none := by
  simp only [shift, h, hf]

/-- What cannot stand where an operand is needed. -/
theorem shift_none_eq_none
    (h : (∃ op, t.kind = .binary op) ∨ t.kind = .closeParen ∨ t.kind = .illegal) :
    shift ⟨fs, none⟩ t = none := by
  rcases h with ⟨op, h⟩ | h | h
  · simp only [shift, h]
  · simp only [shift, h]
  · simp only [shift, h]

/-- What cannot stand after an operand. -/
theorem shift_some_eq_none
    (h : t.kind.isOperand = true ∨ t.kind = .negation ∨ t.kind = .openParen ∨ t.kind = .illegal) :
    shift ⟨fs, some f⟩ t = none := by
  rcases h with h | h | h | h
  · unfold shift
    cases hk : t.kind <;> rw [hk] at h <;> first | rfl | cases h
  · simp only [shift, h]
  · simp only [shift, h]
  · simp only [shift, h]

/-- Only the kind of a token counts, and the text of a name. -/
theorem shift_congr {u : Token} (hk : t.kind = u.kind) (htext : t.kind = .name → t.text = u.text)
    (r : Reading) : shift r t = shift r u := by
  unfold shift
  rw [← hk]
  cases h : t.kind with
  | name => rw [htext h]
  | _ => cases r.operand <;> rfl

end Shift

/-- The reading after all the tokens; the first one with which no expression can go on is the
error. -/
def shiftAll : Reading → List Token → Except ParseError Reading
  | r, [] => .ok r
  | r, t :: ts =>
    match r.shift t with
    | some r' => shiftAll r' ts
    | none => .error (.unexpectedToken t)

theorem shiftAll_append (r : Reading) (ts us : List Token) :
    r.shiftAll (ts ++ us) = (r.shiftAll ts).bind fun r' => r'.shiftAll us := by
  induction ts generalizing r with
  | nil => rfl
  | cons t ts ih =>
    simp only [List.cons_append, shiftAll]
    cases r.shift t with
    | none => rfl
    | some r' => exact ih r'

/-- The formula that has been read, if the expression is complete. -/
def finish (r : Reading) : Except ParseError Formula :=
  match r.operand with
  | none => .error .unexpectedEnd
  | some f =>
    match Frame.fillWhile (fun frame => !frame.isParen) f r.frames with
    | (g, []) => .ok g
    | _ => .error .unexpectedEnd

theorem finish_of_nil {f g : Formula} {fs : List Frame}
    (hf : Frame.fillWhile (fun frame => !frame.isParen) f fs = (g, [])) :
    finish ⟨fs, some f⟩ = .ok g := by
  simp only [finish, hf]

theorem finish_of_paren {f g : Formula} {fs rest : List Frame}
    (hf : Frame.fillWhile (fun frame => !frame.isParen) f fs = (g, .paren :: rest)) :
    finish ⟨fs, some f⟩ = .error .unexpectedEnd := by
  simp only [finish, hf]

end Reading

namespace Formula

/-- The formula that the tokens spell, however deep it is. -/
def ofTokens (tokens : List Token) : Except ParseError Formula :=
  match Reading.start.shiftAll tokens with
  | .ok r => r.finish
  | .error e => .error e

theorem ofTokens_eq_ok_iff_shiftAll {tokens : List Token} {f : Formula} :
    ofTokens tokens = .ok f ↔
      ∃ r, Reading.start.shiftAll tokens = .ok r ∧ r.finish = .ok f := by
  unfold ofTokens
  split
  · rename_i r hr
    simp [hr]
  · rename_i e he
    simp [he]

/-- The largest depth of a parsed formula, where nothing else is asked for. -/
def defaultMaxDepth : Int := 256

/-- The formula that a text in canonical spelling denotes. -/
def parse (text : List Char) (maxDepth : Int) : Except ParseError Formula :=
  match ofTokens (Token.scan text) with
  | .ok f => if f.depth > maxDepth then .error (.tooDeep f.depth maxDepth) else .ok f
  | .error e => .error e

theorem parse_eq_ok_iff {text : List Char} {maxDepth : Int} {f : Formula} :
    parse text maxDepth = .ok f ↔
      ofTokens (Token.scan text) = .ok f ∧ (f.depth : Int) ≤ maxDepth := by
  unfold parse
  split
  · rename_i g hg
    rw [hg, Except.ok.injEq]
    constructor
    · intro h
      split at h
      · cases h
      · rename_i hle
        obtain rfl := Except.ok.inj h
        exact ⟨rfl, Int.not_lt.mp hle⟩
    · rintro ⟨rfl, hle⟩
      rw [if_neg (Int.not_lt.mpr hle)]
  · rename_i e he
    rw [he]
    constructor
    · intro h
      cases h
    · rintro ⟨h, -⟩
      cases h

end Formula

end Propositional
