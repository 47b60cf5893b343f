/-
What is logged of a run. An event has a level, a message and fields of its own;
as a record it also names the program. Records whose level does not pass the
threshold are dropped, the others are kept in order.
-/
import LowPass.Log.Level
import LowPass.Smoothing

namespace LowPass

/-- The name under which the program logs, and calls itself if it has to. -/
def programName : String := "rc-filter"

inductive Event where
  /-- a run begins -/
  | starting (input output : String)
  | inputUnopened (reason : String)
  | inputIsDirectory
  /-- an input is open, but cannot be told from a directory -/
  | inputUnexamined (reason : String)
  /-- a run has succeeded -/
  | smoothed (done : Summary)
  /-- something has failed, in a context -/
  | failed (context : String) (failure : Failure)
  deriving DecidableEq

/-- The value of a field. -/
inductive FieldValue where
  | text (s : String)
  | count (n : Nat)
  deriving DecidableEq

namespace Event

def level : Event → Level
  | .starting .. => .debug
  | .inputUnopened .. => .debug
  | .inputIsDirectory => .debug
  | .inputUnexamined .. => .debug
  | .smoothed .. => .info
  | .failed .. => .error

def message : Event → String
  | .starting .. => "starting filter run"
  | .inputUnopened .. => "cannot open input"
  | .inputIsDirectory => "input is a directory"
  | .inputUnexamined .. => "cannot stat input"
  | .smoothed .. => "filtered samples"
  | .failed context _ => context

/-- What an event says beyond its message. -/
def details : Event → List (String × FieldValue)
  | .starting input output => [("input", .text input), ("output", .text output)]
  | .inputUnopened reason => [("error", .text reason)]
  | .inputIsDirectory => []
  | .inputUnexamined reason => [("error", .text reason)]
  | .smoothed done => [("count", .count done.samples), ("lines", .count done.lines)]
  | .failed _ failure =>
    [("error", .text failure.message), ("causes", .text (chainText failure.causes))]

/-- All fields of the record of an event. -/
def fields (e : Event) : List (String × FieldValue) :=
  [("msg", .text e.message), ("level", .text e.level.shortName), ("app", .text programName)]
    ++ e.details

end Event

/-- The events that pass a threshold. -/
def logged (threshold : Level) (events : List Event) : List Event :=
  events.filter (·.level.passes threshold)

theorem Level.passes_trace (level : Level) : level.passes .trace = true := by cases level <;> rfl

/-- The last threshold keeps everything. -/
theorem logged_trace (events : List Event) : logged .trace events = events :=
  List.filter_eq_self.2 fun e _ => e.level.passes_trace

end LowPass
