/-!
# JSON documents on several lines

A document is printed with two blanks of indentation for each level, one entry on a line. Only the
quote, the backslash and control characters below the blank are escaped; all else stands as it is.
This is the form in which the command line prints a result (section 6 of the Veritas specification).
-/

namespace Propositional

/-- The documents that results have. Numbers do not occur in them. -/
inductive Json where
  | flag (value : Bool)
  | text (value : String)
  | list (items : List Json)
  | object (fields : List (String × Json))

namespace Json

/-- A hexadecimal digit in lower case. -/
def hexDigit (n : Nat) : Char := Nat.digitChar n

/-- A character as it stands between quotes. -/
def escape (c : Char) : List Char :=
  if c == '"' then ['\\', '"']
  else if c == '\\' then ['\\', '\\']
  else if c == '\n' then ['\\', 'n']
  else if c == '\r' then ['\\', 'r']
  else if c == '\t' then ['\\', 't']
  else if c.toNat == 0x08 then ['\\', 'b']
  else if c.toNat == 0x0c then ['\\', 'f']
  else if c.toNat < 0x20 then
    ['\\', 'u', '0', '0', hexDigit (c.toNat / 16), hexDigit (c.toNat % 16)]
  else [c]

/-- The text between quotes. -/
def quoted (s : String) : String := String.ofList ('"' :: s.toList.flatMap escape ++ ['"'])

/-- A line break, and the indentation of a level. -/
def newLine (level : Nat) : String := String.ofList ('\n' :: List.replicate (2 * level) ' ')

/-- Entries between brackets, each on a line of its own one level deeper. -/
def block (left right : String) (level : Nat) : List String → String
  | [] => left ++ right
  | entries =>
    left ++ newLine (level + 1) ++ String.intercalate ("," ++ newLine (level + 1)) entries ++
      newLine level ++ right

mutual

/-- The document as it stands at a level of indentation. -/
def renderAt (level : Nat) : Json → String
  | flag b => if b then "true" else "false"
  | text s => quoted s
  | list items => block "[" "]" level (renderItems (level + 1) items)
  | object fields => block "\x7b" "\x7d" level (renderFields (level + 1) fields)

/-- The items of a list, each as it stands at the level. -/
def renderItems (level : Nat) : List Json → List String
  | [] => []
  | item :: items => renderAt level item :: renderItems level items

/-- The fields of an object, each with its name, as they stand at the level. -/
def renderFields (level : Nat) : List (String × Json) → List String
  | [] => []
  | (name, value) :: fields =>
    (quoted name ++ ": " ++ renderAt level value) :: renderFields level fields

end

/-- The document on its own. -/
def render (j : Json) : String := renderAt 0 j

end Json

end Propositional
