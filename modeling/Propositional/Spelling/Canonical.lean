import Propositional.Spelling.Basic

/-!
# The canonical spelling of a text

`Canonical.ofText` cuts a text, from left to right, into spellings of connectives, always the
longest that fits, and single characters. Each spelling becomes the symbol of its connective and
everything else stays, so that every canonical character knows the index at which it began. If case
does not matter the text is put in lower case first, one character for one.

A word that was recognised although its lower case is not in the table (`ımplies`) has no symbol;
that is the error.

This is `normalize_with_offsets` of the Veritas specification (section 4.1), of whose results
`normalize` gives the text alone.
-/

namespace Propositional

/-- A word that is read as a connective but is not spelled like one, in lower case. -/
structure UnknownWord where
  word : String
deriving DecidableEq

/-- A canonical character, and the index in the given text at which it began. -/
structure Piece where
  char : Char
  start : Nat
deriving DecidableEq

/-- The pieces of `cs`, the rest of a text from the index `start` on, after the character
`before`. -/
def Piece.cut (start : Nat) (before : Option Char) (cs : List Char) :
    Except UnknownWord (List Piece) :=
  match cs with
  | [] => .ok []
  | c :: rest =>
    match Spelling.at? before (c :: rest) with
    | none =>
      match cut (start + 1) (some c) rest with
      | .ok pieces => .ok (⟨c, start⟩ :: pieces)
      | .error e => .error e
    | some s =>
      let found := (c :: rest).take s.text.length
      let lowered := found.flatMap Text.lowerFull
      match Spelling.symbolOf? lowered with
      | none => .error ⟨String.ofList lowered⟩
      | some symbol =>
        match cut (start + s.text.length) found.getLast? (rest.drop (s.text.length - 1)) with
        | .ok pieces => .ok (⟨symbol, start⟩ :: pieces)
        | .error e => .error e
termination_by cs.length
decreasing_by
  · exact Nat.lt_succ_self _
  · rw [List.length_drop, List.length_cons]
    omega

/-- A text in canonical spelling. Entry `i` of `offsets` is the index in the given text at which
character `i` began; one more entry is the length of the given text. -/
structure Canonical where
  text : List Char
  offsets : List Nat
deriving DecidableEq

/-- The text whose spellings count: the given one, or its lower case. -/
def Canonical.folded (caseSensitive : Bool) (text : List Char) : List Char :=
  if caseSensitive then text else text.map Text.lower

/-- The canonical spelling of a text, with the offset of every character and that of the end. -/
def Canonical.ofText (caseSensitive : Bool) (text : List Char) : Except UnknownWord Canonical :=
  match Piece.cut 0 none (folded caseSensitive text) with
  | .ok pieces => .ok ⟨pieces.map (·.char), pieces.map (·.start) ++ [text.length]⟩
  | .error e => .error e

end Propositional
