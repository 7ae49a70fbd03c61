import Propositional.CommandLine.Options
import Propositional.Text.Classes

/-!
# Reading a command line

First every argument is classified on its own: as an option, by its name or an unambiguous beginning
of a long name, as an unknown option, or as plain. All arguments after the first `--` are plain.
Then the arguments are taken from left to right; the first plain one is the expression. A `--` right
before or after the expression is dropped. What finds no place is reported at the end, unless the
expression is missing.

The Veritas specification (section 6, CLI) leaves all this to argparse. The conventions here are
those of its 3.11 releases before 3.11.9. Later ones, such as 3.11.10 and 3.12.3, differ in two
places:

* What follows a one-letter option in the same argument. Here it is read letter by letter as further
  options, after one `=` that may stand in front (`classify`, `unfold`): `-v=v` and `-vv` are the
  same, and in `-hx` and `-vx` the `x` is refused as a value before any letter acts.
* A value `--` that is attached to its option, as in `--sort=--` or `--lang=--`. Here it is dropped
  unchecked, and the option is left without a value (`Options.takeValue`).
-/

namespace Propositional.CommandLine

/-- What an argument is, looked at on its own. -/
inductive Word where
  | plain (text : String)
  | dashes
  | option (opt : Opt) (value : Option String)
  /-- A one-letter option with more letters behind its own. -/
  | cluster (opt : Opt) (letters : List Char)
  | unknown (text : String)
deriving DecidableEq

/-- The text before the first `=` and, if there is one, the text after it. -/
def splitAtEquals (cs : List Char) : List Char × Option (List Char) :=
  match cs.dropWhile (· != '=') with
  | [] => (cs, none)
  | _ :: value => (cs.takeWhile (· != '='), some value)

/-- One or more decimal digits, or digits after a point, behind the dash. -/
def isNegativeNumber (cs : List Char) : Bool :=
  let body := if cs.getLast? == some '\n' then cs.dropLast else cs
  match body with
  | '-' :: digits =>
    let fraction := digits.dropWhile Text.isDecimalDigit
    match fraction with
    | [] => !digits.isEmpty
    | '.' :: rest => !rest.isEmpty && rest.all Text.isDecimalDigit
    | _ => false
  | _ => false

/-- A word for an argument that begins with a dash and is no option's name. -/
def classifyOther (argument : String) : Word :=
  if isNegativeNumber argument.toList || argument.toList.contains ' ' then .plain argument
  else .unknown argument

/-- The word for an argument that begins with two dashes and is no option's full name. What stands
before the first `=` counts as an option if just one name begins with it. -/
def classifyLong (argument : String) : Except UsageError Word :=
  let (beginning, value) := splitAtEquals argument.toList
  match Opt.named.filter fun entry => beginning.isPrefixOf entry.1.toList with
  | [] => .ok (classifyOther argument)
  | [(_, opt)] => .ok (.option opt (value.map String.ofList))
  | candidates => .error (.ambiguous argument (candidates.map (·.1)))

/-- The word for an argument that stands before any `--`: an option's full name first, then a name
with a value behind `=`, then the beginning of a name, and last a one-letter option with letters
behind it. -/
def classify (argument : String) : Except UsageError Word :=
  match Opt.ofName? argument with
  | some opt => .ok (.option opt none)
  | none =>
    match argument.toList with
    | '-' :: '-' :: _ =>
      let (name, value) := splitAtEquals argument.toList
      match value, Opt.ofName? (String.ofList name) with
      | some value, some opt => .ok (.option opt (some (String.ofList value)))
      | _, _ => classifyLong argument
    | '-' :: letter :: rest =>
      match Opt.ofName? (String.ofList ['-', letter]) with
      | some opt =>
        match rest with
        | ['='] => .ok (.option opt (some ""))
        | '=' :: letters => .ok (.cluster opt letters)
        | letters => .ok (.cluster opt letters)
      | none => .ok (classifyOther argument)
    | _ => .ok (.plain argument)

/-- The words for all arguments; an ambiguous one before any `--` is the error. -/
def classifyAll : List String → Except UsageError (List Word)
  | [] => .ok []
  | argument :: rest =>
    if argument = "--" then .ok (.dashes :: rest.map .plain)
    else
      match classify argument with
      | .error e => .error e
      | .ok word =>
        match classifyAll rest with
        | .error e => .error e
        | .ok words => .ok (word :: words)

/-- The options that stand in one argument, `opt` and those of the letters behind it. No one-letter
option takes a value, so the letters from the first unknown one on are a value that is refused. The
`=` that may stand in front of the letters has been left out by `classify`; another one is a
letter. -/
def unfold (opt : Opt) : List Char → Except UsageError (List Opt)
  | [] => .ok [opt]
  | letter :: rest =>
    match Opt.ofName? (String.ofList ['-', letter]) with
    | none => .error (.ignoredValue opt (String.ofList (letter :: rest)))
    | some next =>
      match unfold next rest with
      | .ok opts => .ok (opt :: opts)
      | .error e => .error e

/-- What a command line asks for, as far as it has been read. -/
structure Options where
  expression : Option String := none
  given : List Opt := []
  /-- None if the value that was given has been dropped; so for the next two. -/
  order : Option RowOrder := some .counting
  hide : Option Hiding := some .nothing
  lang : Option String := some "en"
  unplaced : List String := []

/-- Why the reading of a command line ends early. -/
inductive Stop where
  | help
  | error (e : UsageError)
deriving DecidableEq

namespace Options

/-- The option has been given. Those with a value are not listed. -/
def has (o : Options) (opt : Opt) : Bool := o.given.contains opt

/-- The options with one more argument that has found no place. -/
def leave (o : Options) (argument : String) : Options :=
  { o with unplaced := o.unplaced ++ [argument] }

/-- The options with one more that takes no value. -/
def takeFlag (o : Options) (opt : Opt) : Except Stop Options :=
  match opt.rival? with
  | some rival =>
    if o.has rival then .error (.error (.notAllowedWith opt rival))
    else .ok { o with given := opt :: o.given }
  | none => if opt = .help then .error .help else .ok { o with given := opt :: o.given }

/-- The options with those of one argument, taken one by one. -/
def takeFlags (o : Options) : List Opt → Except Stop Options
  | [] => .ok o
  | opt :: opts =>
    match o.takeFlag opt with
    | .ok o' => o'.takeFlags opts
    | .error e => .error e

/-- The options with a value put in. A value that is `--` is dropped and nothing is checked, as
argparse did before 3.11.9. -/
def takeValue (o : Options) (opt : Opt) (value : String) : Except Stop Options :=
  if value = "--" then
    match opt with
    | .sort => .ok { o with order := none }
    | .hide => .ok { o with hide := none }
    | _ => .ok { o with lang := none }
  else
    match opt with
    | .sort =>
      match RowOrder.ofName? value with
      | some order => .ok { o with order := some order }
      | none => .error (.error (.invalidChoice opt value))
    | .hide =>
      match Hiding.ofName? value with
      | some hide => .ok { o with hide := some hide }
      | none => .error (.error (.invalidChoice opt value))
    | _ => .ok { o with lang := some value }

/-- The options with those of one argument. All its letters are looked up before one is taken. -/
def takeCluster (o : Options) (opt : Opt) (letters : List Char) : Except Stop Options :=
  match unfold opt letters with
  | .error e => .error (.error e)
  | .ok opts => o.takeFlags opts

/-- The options with all that the words say. A word right behind an option with a value is that
value, and the first other plain one is the expression. -/
def take (o : Options) : List Word → Except Stop Options
  | [] => .ok o
  | .plain text :: .dashes :: rest =>
    match o.expression with
    | none => take { o with expression := some text } rest
    | some _ => take ((o.leave text).leave "--") rest
  | .plain text :: rest =>
    match o.expression with
    | none => take { o with expression := some text } rest
    | some _ => take (o.leave text) rest
  | .dashes :: .plain text :: rest =>
    match o.expression with
    | none => take { o with expression := some text } rest
    | some _ => take ((o.leave "--").leave text) rest
  | .dashes :: rest => take (o.leave "--") rest
  | .unknown text :: rest => take (o.leave text) rest
  | .cluster opt letters :: rest =>
    match o.takeCluster opt letters with
    | .ok o' => take o' rest
    | .error e => .error e
  | .option opt (some value) :: rest =>
    if opt.takesValue then
      match o.takeValue opt value with
      | .ok o' => take o' rest
      | .error e => .error e
    else .error (.error (.ignoredValue opt value))
  | .option opt none :: .plain value :: rest =>
    if opt.takesValue then
      match o.takeValue opt value with
      | .ok o' => take o' rest
      | .error e => .error e
    else
      match o.takeFlag opt with
      | .ok o' => take o' (.plain value :: rest)
      | .error e => .error e
  | .option opt none :: rest =>
    if opt.takesValue then .error (.error (.valueExpected opt))
    else
      match o.takeFlag opt with
      | .ok o' => take o' rest
      | .error e => .error e

end Options

/-- The expression and the options, or why there is nothing to do. -/
def read (arguments : List String) : Except Stop (String × Options) :=
  match classifyAll arguments with
  | .error e => .error (.error e)
  | .ok words =>
    match ({} : Options).take words with
    | .error e => .error e
    | .ok o =>
      match o.expression with
      | none => .error (.error .expressionRequired)
      | some text =>
        if o.unplaced.isEmpty then .ok (text, o) else .error (.error (.unrecognized o.unplaced))

end Propositional.CommandLine
