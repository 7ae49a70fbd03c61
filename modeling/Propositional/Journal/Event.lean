import Propositional.Text.Quoted

/-!
# What is worth noting

An event is something that a stage of the work has noted. It has a level, and a wording; the only
part of a wording that the work itself does not settle is the time that it took.

Events are what the stages log in the Veritas specification (section 8). Its domain helpers
`expression_received`, `validation_result`, `rule_applied`, `table_built` and `final_result` are
`received`, `verdict`, `ruleApplied`, `tabulated` and `simplified`; `note` is a line that whoever
writes it words.
-/

namespace Propositional

/-- How important a note is, from the least to the most. -/
inductive Level where
  | debug
  | info
  | warning
  | error
deriving DecidableEq

namespace Level

/-- The name of the level, by which a line is marked and a threshold is set. -/
def name : Level → String
  | debug => "DEBUG"
  | info => "INFO"
  | warning => "WARNING"
  | error => "ERROR"

/-- All levels, from the least important on. -/
def all : List Level := [debug, info, warning, error]

/-- The level of that name. -/
def ofName? (s : String) : Option Level := all.find? (·.name == s)

/-- The place of the level among the others; a threshold is passed by what ranks as high. -/
def rank : Level → Nat
  | debug => 0
  | info => 1
  | warning => 2
  | error => 3

end Level

/-- The value of an option as it is shown beside the option's name. -/
inductive OptionValue where
  | flag (value : Bool)
  | number (value : Int)
  | text (value : String)
  | absent
deriving DecidableEq

/-- The value as it stands behind the name of the option. -/
def OptionValue.show : OptionValue → String
  | flag true => "True"
  | flag false => "False"
  | number n => toString n
  | text s => s
  | absent => "None"

/-- What a stage notes, with the data that its wording mentions. -/
inductive Event where
  | note (level : Level) (text : String)
  | received (operation text : String) (options : List (String × OptionValue))
  | lowered (text : String)
  | canonical (text : String)
  | checking (text : String)
  | illegalCharacter (text : String) (position : Nat)
  /-- The outcome of a check; an empty text stands for the usual wording. -/
  | verdict (accepted : Bool) (text : String)
  | refused (message : String)
  | parsing (text : String)
  | parsed (shape : String)
  | measured (size depth : Nat)
  | simplifying (formula : String)
  | ruleApplied (rule before after : String)
  | fixpoint (steps : Nat)
  | stopped (cap : Int) (formula : String)
  | tabulating (names : List String)
  | tabulated (rows columns : Int)
  | tableText (text : String)
  | simplified (formula : String)
deriving DecidableEq

namespace Event

/-- The level at which the event is noted. What a caller asked for and got is `info`, a refusal or a
stopped simplification is a `warning`, and what a single stage does is `debug`. -/
def level : Event → Level
  | note level _ => level
  | received .. => .info
  | refused _ => .warning
  | stopped .. => .warning
  | simplified _ => .info
  | _ => .debug

/-- The wording, where `elapsed` is the time in milliseconds. -/
def text (elapsed : String) : Event → String
  | note _ text => text
  | received operation text options =>
    let shown := options.map fun option => option.1 ++ "=" ++ option.2.show
    operation ++ " call: exp=" ++ Text.quoted text ++ ", " ++ String.intercalate ", " shown
  | lowered text => s!"Expression converted to lowercase: {text}"
  | canonical text => s!"Expression changed to: {text}"
  | checking text => s!"Validating expression: {text}"
  | illegalCharacter text position => s!"Illegal character '{text}' at position {position}"
  | verdict true text => "✅ " ++ if text = "" then "Validation successful" else text
  | verdict false text => "❌ " ++ if text = "" then "Validation failed" else text
  | refused message => s!"Expression is not legal: {message}"
  | parsing text => s!"Parsing expression: {text}"
  | parsed shape => s!"Successfully parsed expression into {shape}"
  | measured size depth => s!"Parsed tree with {size} nodes, depth {depth}"
  | simplifying formula => s!"Starting simplification of {formula}"
  | ruleApplied rule before after => s!"    🔧 {rule}: {before} → {after}"
  | fixpoint steps => s!"Simplification reached fixpoint after {steps} steps"
  | stopped cap formula =>
    s!"Simplification stopped after {cap} rewrites without reaching a fixpoint: {formula}"
  | tabulating names =>
    let shown := String.intercalate ", " (names.map Text.quoted)
    s!"Building truth table over variables [{shown}]"
  | tabulated rows columns => s!"    📋 Truth table built: {rows} rows x {columns} columns"
  | tableText text => s!"New table created:\n{text}"
  | simplified formula => s!"Expression simplified to {formula} in {elapsed}ms"

end Event

end Propositional
