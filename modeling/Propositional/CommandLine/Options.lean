import Propositional.Table.Basic
import Propositional.Text.Quoted

/-!
# Options of the command line

The options by their names, and what can be said against a command line. They are those of the
Veritas specification (section 6, CLI).
-/

namespace Propositional.CommandLine

/-- The options that a command line can have. -/
inductive Opt where
  | help
  | table
  | tableOnly
  | noSimplify
  | caseSensitive
  | sort
  | hide
  | hideIntermediate
  | lang
  | json
  | verbose
  | debug
deriving DecidableEq

namespace Opt

/-- All options, in the order in which help and ambiguities list them. -/
def all : List Opt := [help, table, tableOnly, noSimplify, caseSensitive, sort, hide,
  hideIntermediate, lang, json, verbose, debug]

/-- The names of an option, a one-letter one first. -/
def names : Opt → List String
  | help => ["-h", "--help"]
  | table => ["--table"]
  | tableOnly => ["--table-only"]
  | noSimplify => ["--no-simplify"]
  | caseSensitive => ["--case-sensitive"]
  | sort => ["--sort"]
  | hide => ["--hide"]
  | hideIntermediate => ["--hide-intermediate"]
  | lang => ["--lang"]
  | json => ["--json"]
  | verbose => ["-v", "--verbose"]
  | debug => ["--debug"]

/-- Every name with its option. -/
def named : List (String × Opt) := all.flatMap fun opt => opt.names.map fun name => (name, opt)

/-- The option of exactly that name. -/
def ofName? (name : String) : Option Opt := named.lookup name

/-- The option is followed by a value. -/
def takesValue : Opt → Bool
  | sort => true
  | hide => true
  | lang => true
  | _ => false

/-- The values to choose from; the list is empty if any value will do. -/
def choices : Opt → List String
  | sort => RowOrder.all.map RowOrder.name
  | hide => Hiding.all.map Hiding.name
  | _ => []

/-- The option as messages call it. -/
def title (opt : Opt) : String := String.intercalate "/" opt.names

/-- The option with which it cannot be combined. -/
def rival? : Opt → Option Opt
  | table => some tableOnly
  | tableOnly => some table
  | _ => none

end Opt

/-- What is wrong with a command line. -/
inductive UsageError where
  | ambiguous (argument : String) (candidates : List String)
  | ignoredValue (opt : Opt) (value : String)
  | valueExpected (opt : Opt)
  | invalidChoice (opt : Opt) (value : String)
  | notAllowedWith (opt rival : Opt)
  | expressionRequired
  | unrecognized (arguments : List String)
deriving DecidableEq

/-- The complaint in words. -/
def UsageError.message : UsageError → String
  | ambiguous argument candidates =>
    let shown := String.intercalate ", " candidates
    s!"ambiguous option: {argument} could match {shown}"
  | ignoredValue opt value =>
    s!"argument {opt.title}: ignored explicit argument {Text.quoted value}"
  | valueExpected opt => s!"argument {opt.title}: expected one argument"
  | invalidChoice opt value =>
    let shown := String.intercalate ", " (opt.choices.map Text.quoted)
    s!"argument {opt.title}: invalid choice: {Text.quoted value} (choose from {shown})"
  | notAllowedWith opt rival => s!"argument {opt.title}: not allowed with argument {rival.title}"
  | expressionRequired => "the following arguments are required: expression"
  | unrecognized arguments => "unrecognized arguments: " ++ String.intercalate " " arguments

end Propositional.CommandLine
