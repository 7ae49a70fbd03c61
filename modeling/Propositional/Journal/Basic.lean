import Propositional.Journal.Event

/-!
# A journal of events

A journal has a name and a threshold, and writes a line for every event at or above the threshold.
There is at most one journal, and the first call that needs it opens it; its name is settled then,
and its threshold can be changed later.

This is the logger of the Veritas specification (section 8): `get_logger()` is `Call.ensure`,
`set_log_level()` is `Call.setThreshold` and `configure_logging(verbose, debug)` is
`Call.configure`.
-/

namespace Propositional

/-- An event below the threshold is not written. -/
def Level.admits (threshold level : Level) : Bool := threshold.rank ≤ level.rank

namespace Event

/-- The line of an event: all levels but `info` are named in front. -/
def line (elapsed : String) (e : Event) : String :=
  let mark := if e.level = .info then "" else "[" ++ e.level.name ++ "] "
  mark ++ e.text elapsed ++ "\n"

/-- What a journal with the threshold writes of the events. -/
def transcript (threshold : Level) (elapsed : String) (events : List Event) : String :=
  String.join ((events.filter fun e => threshold.admits e.level).map (line elapsed))

end Event

/-- A journal that has been opened. -/
structure Journal where
  name : String
  threshold : Level
deriving DecidableEq

namespace Journal

/-- The name of a journal for which no name is given. -/
def defaultName : String := "veritas"

/-- A new journal. The empty name is that of the journal at the root. -/
def create (name : String) : Journal := ⟨if name = "" then "root" else name, .info⟩

/-- The threshold that command line flags ask for. -/
def thresholdFor (verbose debug : Bool) : Level :=
  if debug then .debug else if verbose then .info else .warning

/-- What is asked of the journal. -/
inductive Call where
  /-- Opens the journal, under this name if it is not open yet. -/
  | ensure (name : String)
  /-- Sets the threshold to the level of that name. -/
  | setThreshold (level : String)
  | configure (verbose debug : Bool)
  | write (event : Event) (elapsed : String)

/-- A name that is no level. -/
structure UnknownLevel where
  name : String
deriving DecidableEq

/-- The journal after a call, and what the call has written. -/
def perform (journal : Option Journal) (call : Call) : Except UnknownLevel (Journal × String) :=
  let current := journal.getD (create defaultName)
  match call with
  | .ensure name => .ok (journal.getD (create name), "")
  | .setThreshold level =>
    match Level.ofName? level with
    | some threshold => .ok ({ current with threshold }, "")
    | none => .error ⟨level⟩
  | .configure verbose debug => .ok ({ current with threshold := thresholdFor verbose debug }, "")
  | .write event elapsed => .ok (current, Event.transcript current.threshold elapsed [event])

/-- The journal and the output after each of the calls. -/
def performAll : Option Journal → List Call → Except UnknownLevel (List (Journal × String))
  | _, [] => .ok []
  | journal, call :: calls =>
    match perform journal call with
    | .error e => .error e
    | .ok (journal', output) =>
      match performAll (some journal') calls with
      | .ok rest => .ok ((journal', output) :: rest)
      | .error e => .error e

end Journal

end Propositional
