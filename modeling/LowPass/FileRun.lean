/-
A run over files, and what is seen of it.

The input is opened first: if that fails the output is not touched. A report
tells the outcome on three channels, the exit status, the standard output and
the log, and all three say the same.
-/
import LowPass.Host
import LowPass.Log.Record
import LowPass.Text.Colour

namespace LowPass

/-- How the log tells of an obstacle. -/
def Obstacle.event : Obstacle → Event
  | .unopened e => .inputUnopened e.text
  | .directory => .inputIsDirectory
  | .unexamined e => .inputUnexamined e.text

/-- Smooths one file into another. The outcome stands beside what is to be
logged of the way to it. -/
def smoothFile {m : Type → Type} [Monad m] (host : Host m) (input output : Bytes) :
    m (Outcome × List Event) := do
  let start := Event.starting input.lossyText output.lossyText
  match ← host.openInput input with
  | .error obstacle => return (.error (.inputNotFound input.lossyText), [start, obstacle.event])
  | .ok source =>
    match ← host.create output with
    | .error e => return (.error (.outputOpen output.lossyText e), [start])
    | .ok target =>
      match ← host.smooth source target with
      | .ok done => return (.ok done, [start, .smoothed done])
      | .error failure => return (.error failure, [start])

/-- What is seen of a run. -/
structure Report where
  status : Nat
  /-- the text on standard output -/
  printed : String
  /-- what the log keeps -/
  events : List Event
  deriving DecidableEq

namespace Report

/-- The line that tells of a failure. -/
def line (colour : Bool) (failure : Failure) : String :=
  (if colour then inYellow failure.message else failure.message) ++ "\n"

/-- Reports an outcome: a failure is told on standard output and logged last. -/
def ofOutcome (colour : Bool) (threshold : Level) (outcome : Outcome) (events : List Event) :
    Report :=
  match outcome with
  | .ok _ => ⟨outcome.status, "", logged threshold events⟩
  | .error failure =>
    ⟨outcome.status, line colour failure,
      logged threshold (events ++ [.failed "filter run failed" failure])⟩

/-- Logs a failure in a context, after all that has been seen. -/
def logFailure (threshold : Level) (context : String) (failure : Failure) (r : Report) : Report :=
  { r with events := r.events ++ logged threshold [.failed context failure] }

/-- A run that fails prints its failure, and then logs it. -/
theorem ofOutcome_error (colour : Bool) (threshold : Level) (failure : Failure)
    (events : List Event) :
    ofOutcome colour threshold (.error failure) events =
      logFailure threshold "filter run failed" failure
        ⟨Failure.status, line colour failure, logged threshold events⟩ := by
  rw [ofOutcome, logFailure, logged, List.filter_append]
  rfl

end Report

/-- Smooths one file into another and reports it. -/
def runFiles {m : Type → Type} [Monad m] (host : Host m) (colour : Bool) (threshold : Level)
    (input output : Bytes) : m Report := do
  let (outcome, events) ← smoothFile host input output
  return .ofOutcome colour threshold outcome events

end LowPass
