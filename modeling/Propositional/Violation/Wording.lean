import Propositional.Text.Classes
import Propositional.Text.Quoted
import Propositional.Violation.Basic

/-!
# Violations in words

The wording of a violation in English and in Norwegian Bokmål. A wording has places for a text, a
position, a count and a limit; a place for which nothing is known shows `None`.

These are the messages of the Veritas specification (section 7), and `Language.ofTag` is its
`Language.from_tag` (section 6).
-/

namespace Propositional

/-- The languages in which messages are worded. -/
inductive Language where
  | english
  | norwegian
deriving DecidableEq

namespace Language

/-- The code by which settings name the language. -/
def code : Language → String
  | english => "en"
  | norwegian => "nb"

/-- All languages. -/
def all : List Language := [english, norwegian]

/-- The language of that code. -/
def ofCode? (s : String) : Option Language := all.find? (·.code == s)

/-- The language for a tag such as `en-US`: tags that begin with `en` in any case, after blanks,
are English, and all others, an absent one too, are Norwegian. -/
def ofTag : Option String → Language
  | none => norwegian
  | some tag =>
    if ((Text.trimStart tag.toList).take 2).map Char.toLower = ['e', 'n'] then english
    else norwegian

/-- What is said of a text that is the code of no language. -/
def unknownMessage (code : String) : String := s!"{Text.quoted code} is not a valid Language"

end Language

namespace Violation

/-- What is said of a text that names no kind of violation. -/
def Kind.unknownMessage (label : String) : String :=
  s!"{Text.quoted label} is not a valid ErrorKind"

/-- What a wording can mention. -/
structure Details where
  text : Option String
  position : Option Int
  count : Option Int
  limit : Option Int
deriving DecidableEq

/-- What is known of a violation. -/
def details (v : Violation) : Details where
  text := v.text?.map String.ofList
  position := v.position?.map Int.ofNat
  count := v.count?.map Int.ofNat
  limit := v.limit?

/-- The occasions on which there is a wording. -/
inductive Occasion where
  | empty
  | invalid
  | unexpectedEnd
  | missing
  | tooBig
deriving DecidableEq

/-- A kind stands for two occasions where it makes a difference whether a text is known. -/
def occasion (kind : Kind) (d : Details) : Occasion :=
  let named := d.text.any (· != "")
  match kind with
  | .tooBigExpression => .tooBig
  | .missingCharacter => if named then .missing else .empty
  | .invalidCharacter => if named then .invalid else .unexpectedEnd

/-- A place in a wording: what is known, or `None`. -/
def orNone {α : Type} (write : α → String) : Option α → String
  | some a => write a
  | none => "None"

/-- The wording for an occasion, with the details in their places. -/
def wording (d : Details) : Language → Occasion → String
  | .english, .empty => "The expression is empty"
  | .english, .invalid =>
    "Illegal character '" ++ orNone id d.text ++ "' at position " ++ orNone toString d.position
  | .english, .unexpectedEnd =>
    "The expression ends unexpectedly at position " ++ orNone toString d.position
  | .english, .missing =>
    "Missing character '" ++ orNone id d.text ++ "' at position " ++ orNone toString d.position
  | .english, .tooBig =>
    "The expression is too big: " ++ orNone toString d.count ++ " exceeds the limit of " ++
      orNone toString d.limit
  | .norwegian, .empty => "Uttrykket er tomt"
  | .norwegian, .invalid =>
    "Ugyldig tegn '" ++ orNone id d.text ++ "' på posisjon " ++ orNone toString d.position
  | .norwegian, .unexpectedEnd =>
    "Uttrykket slutter uventet på posisjon " ++ orNone toString d.position
  | .norwegian, .missing =>
    "Mangler tegnet '" ++ orNone id d.text ++ "' på posisjon " ++ orNone toString d.position
  | .norwegian, .tooBig =>
    "Uttrykket er for stort: " ++ orNone toString d.count ++ " overskrider grensen på " ++
      orNone toString d.limit

/-- The message for a kind of violation of which the details are known. -/
def describe (language : Language) (kind : Kind) (d : Details) : String :=
  wording d language (occasion kind d)

/-- The message for a violation. -/
def message (language : Language) (v : Violation) : String :=
  describe language v.kind v.details

end Violation

end Propositional
