import Propositional.Formula.Render
import Propositional.Text.Classes
import Propositional.Token.Basic

/-!
# Tokens of a text

`scan` splits a text into tokens from left to right. A run of letters is one token, as long as it
can be. Space, tab, line feed and carriage return separate tokens and are otherwise skipped. A
character that starts no token is an `illegal` one on its own, and scanning goes on after it.

This is the lexer of the Veritas specification (section 4.2, check 1). Two parties have a share in
it.

* The lexer itself declares what a token looks like: which characters are ignored (`isSeparator`),
  that a name is letters throughout (`Text.isLetter`) and when such a word is a constant
  (`wordKind`), the symbols and the parentheses (`symbolKind`), and that a character outside of all
  these becomes an `ERROR` token of that one character, with the index moved on by one.
* The library below it (SLY) runs these declarations, and is assumed to do so as it documents:
  ignored characters are skipped, the pattern that matches at the index is taken as far as it
  reaches, and the scan resumes at the index behind it. `scanFrom` is this loop. No two of the
  patterns begin with the same character, so their order is of no consequence.
-/

namespace Propositional.Token

/-- The characters that separate tokens. -/
def isSeparator (c : Char) : Bool := c == ' ' || c == '\t' || c == '\r' || c == '\n'

/-- A run of letters is a name, unless it spells a constant in any case. -/
def wordKind (word : List Char) : Kind :=
  let folded := word.map Char.toLower
  if folded = "true".toList then .truth true
  else if folded = "false".toList then .truth false
  else .name

/-- What a character is that is a token on its own; all that is not listed is illegal. -/
def symbolKind (c : Char) : Kind :=
  if c = negationSymbol then .negation
  else if c = Connective.and.symbol then .binary .and
  else if c = Connective.or.symbol then .binary .or
  else if c = Connective.implies.symbol then .binary .implies
  else if c = '(' then .openParen
  else if c = ')' then .closeParen
  else .illegal

/-- The tokens of a text whose first character has the index `start`. The three cases, and what
counts as a token, are the lexer's; to go on right behind a token is the library's part. -/
def scanFrom (start : Nat) (cs : List Char) : List Token :=
  match cs with
  | [] => []
  | c :: rest =>
    if isSeparator c then scanFrom (start + 1) rest
    else if Text.isLetter c then
      let word := c :: rest.takeWhile Text.isLetter
      ⟨wordKind word, word, start⟩ :: scanFrom (start + word.length) (rest.dropWhile Text.isLetter)
    else ⟨symbolKind c, [c], start⟩ :: scanFrom (start + 1) rest
termination_by cs.length
decreasing_by
  · exact Nat.lt_succ_self _
  · exact Nat.lt_succ_of_le (rest.dropWhile_sublist Text.isLetter).length_le
  · exact Nat.lt_succ_self _

/-- The tokens of a whole text. -/
def scan (text : List Char) : List Token := scanFrom 0 text

end Propositional.Token
