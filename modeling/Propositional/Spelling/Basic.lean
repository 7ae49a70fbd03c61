import Propositional.Formula.Render
import Propositional.Text.Classes
import Propositional.Text.LowerCase

/-!
# The spellings of the connectives

Each connective has one symbol, and may also be spelled by other symbols or by a word. A word counts
only if no letter stands right before or after it, and its case is ignored. In a word, `i` also
stands for `İ` and `ı`, and `s` for `ſ`.

`Spelling.all` is the alias table of the Veritas specification (section 4.1), and `Spelling.at?` the
match of one pattern for the whole table at one index of a text.
-/

namespace Propositional

/-- One way to spell a connective. -/
structure Spelling where
  text : List Char
  /-- The symbol of the connective that is meant. -/
  symbol : Char
  isWord : Bool
deriving DecidableEq

namespace Spelling

/-- A spelling in letters, given in lower case. -/
def word (text : String) (symbol : Char) : Spelling := ⟨text.toList, symbol, true⟩

/-- A spelling in signs. It counts wherever it stands. -/
def sign (text : String) (symbol : Char) : Spelling := ⟨text.toList, symbol, false⟩

/-- All spellings, longer ones first. -/
def all : List Spelling := [
  word "implies" Connective.implies.symbol,
  word "not" negationSymbol,
  word "and" Connective.and.symbol,
  sign "&&" Connective.and.symbol,
  word "or" Connective.or.symbol,
  sign "||" Connective.or.symbol,
  sign "->" Connective.implies.symbol,
  sign "=>" Connective.implies.symbol,
  sign "!" negationSymbol,
  sign "~" negationSymbol,
  sign "¬" negationSymbol,
  sign "&" Connective.and.symbol,
  sign "∧" Connective.and.symbol,
  sign "⋀" Connective.and.symbol,
  sign "|" Connective.or.symbol,
  sign "∨" Connective.or.symbol,
  sign "⋁" Connective.or.symbol,
  sign "→" Connective.implies.symbol,
  sign "⇒" Connective.implies.symbol,
  sign "➔" Connective.implies.symbol]

/-- Whether `c` can stand for the lower-case letter `letter` of a word. -/
def readsAs (letter c : Char) : Bool :=
  c.toLower == letter || (letter == 'i' && (c == 'İ' || c == 'ı')) || (letter == 's' && c == 'ſ')

/-- Whether `cs` begins with the word, its case ignored. -/
def beginsWithWord : List Char → List Char → Bool
  | [], _ => true
  | _, [] => false
  | letter :: letters, c :: cs => readsAs letter c && beginsWithWord letters cs

/-- Whether the spelling stands at the start of `cs`, the rest of a text after `before`. -/
def occursAt (s : Spelling) (before : Option Char) (cs : List Char) : Bool :=
  if s.isWord then
    !before.any Text.isLetter && beginsWithWord s.text cs &&
      !(cs.drop s.text.length).head?.any Text.isLetter
  else s.text.isPrefixOf cs

/-- The longest spelling at the start of `cs`. -/
def at? (before : Option Char) (cs : List Char) : Option Spelling :=
  all.find? (·.occursAt before cs)

/-- The symbol for which a text in lower case stands. -/
def symbolOf? (text : List Char) : Option Char := (all.find? (·.text == text)).map (·.symbol)

end Spelling

end Propositional
