import Propositional.CommandLine.Arguments
import Propositional.CommandLine.Usage
import Propositional.Inquiry.Document
import Propositional.Journal.Basic

/-!
# The answer to a command line

A command line is answered by an exit code, the text that is printed, and the events that go to the
journal: exit code 0 if the expression was accepted, and 2 if it was refused or the command line
itself could not be read. This is the command line of the Veritas specification (section 6, CLI).
-/

namespace Propositional.CommandLine

/-- What a command line is answered with. -/
structure Response where
  exitCode : Nat
  output : String
  /-- What is said of the command line itself. -/
  complaint : String
  threshold : Level
  events : List Event

/-- All that goes beside the output, where `elapsed` is the time the work took. -/
def Response.diagnostics (r : Response) (elapsed : String) : String :=
  r.complaint ++ Event.transcript r.threshold elapsed r.events

/-- What keeps a command line that could be read from an answer. -/
inductive Failure where
  /-- The option's value was dropped, and the option needs one. -/
  | missingValue (opt : Opt)
  | fault (e : Inquiry.Fault)
deriving DecidableEq

/-- The failure in words. -/
def Failure.message : Failure → String
  | missingValue opt => s!"argument {opt.title}: no value is left"
  | fault e => e.message

namespace Options

/-- The settings for an inquiry; sizes are limited as usual. -/
def settings (o : Options) : Except Failure Settings :=
  match o.order, o.hide with
  | none, _ => .error (.missingValue .sort)
  | some _, none => .error (.missingValue .hide)
  | some order, some hide => .ok {
      simplify := !o.has .noSimplify
      caseSensitive := o.has .caseSensitive
      order
      hide
      hideIntermediate := o.has .hideIntermediate
      language := Language.ofTag o.lang }

/-- The least level of the events that are shown. -/
def threshold (o : Options) : Level := Journal.thresholdFor (o.has .verbose) (o.has .debug)

end Options

/-- An answer in both of its printed forms. -/
structure Printed where
  document : Json
  lines : List String

/-- Asks what the options ask for. -/
def inquire (text : String) (o : Options) (s : Settings) :
    Logged Inquiry.Fault (Except Inquiry.Refusal Printed) := do
  if o.has .tableOnly then
    let answer ← Inquiry.tabulate s text
    return answer.map fun a => ⟨a.document, a.lines⟩
  else if o.has .table then
    let answer ← Inquiry.simplifyAndTabulate s text
    return answer.map fun a => ⟨a.document, a.lines⟩
  else
    let answer ← Inquiry.simplify s text
    return answer.map fun a => ⟨a.document, a.lines⟩

/-- The answer to an expression with options. A refusal is shown as a document if documents are
asked for, and is noted in either case. -/
def respond (text : String) (o : Options) : Except Failure Response :=
  match o.settings with
  | .error failure => .error failure
  | .ok s =>
    let work := inquire text o s
    match work.outcome with
    | .error fault => .error (.fault fault)
    | .ok (.error refusal) =>
      let printed := if o.has .json then [refusal.document.render] else []
      let last := Event.note .error (refusal.kind.label ++ ": " ++ refusal.message)
      .ok ⟨2, unlines printed, "", o.threshold, work.events ++ [last]⟩
    | .ok (.ok answer) =>
      let printed := if o.has .json then [answer.document.render] else answer.lines
      .ok ⟨0, unlines printed, "", o.threshold, work.events⟩

/-- The answer to a command line. Help, and complaints about the command line itself, need no
inquiry. -/
def run (arguments : List String) : Except Failure Response :=
  match read arguments with
  | .error .help => .ok ⟨0, unlines helpLines, "", .warning, []⟩
  | .error (.error e) => .ok ⟨2, "", e.report, .warning, []⟩
  | .ok (text, o) => respond text o

end Propositional.CommandLine
