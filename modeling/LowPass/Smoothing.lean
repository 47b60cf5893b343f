/-
Smoothing: samples are read, filtered and printed one by one.

What was filtered before an error is kept: it is written before the error is
reported. If that fails too, the sink's failure is the one reported.
-/
import LowPass.Intake
import LowPass.Printout
import LowPass.Smoother

namespace LowPass

/-- What a run that succeeded has done. -/
structure Summary where
  /-- the samples written -/
  samples : Nat
  /-- the lines read -/
  lines : Nat
  deriving DecidableEq

abbrev Outcome := Except Failure Summary

/-- The exit status of a run. -/
def Outcome.status : Outcome → Nat
  | .ok _ => 0
  | .error _ => Failure.status

/-- Ends the printout of a run. -/
def Printout.conclude (p : Printout) (outcome : Outcome) : Outcome × Sink :=
  match p.finish with
  | (.ok (), sink) => (outcome, sink)
  | (.error e, sink) => (.error (.io e), sink)

/-- Smooths what is left of an intake, from a filter and a printout that have a
history. -/
def smoothFrom (filter : Smoother) (p : Printout) (i : Intake) : Outcome × Sink :=
  match _h : i.next with
  | (some (.ok sample), i') =>
    match p.print (filter.step sample).output with
    | (.ok (), p') => smoothFrom (filter.step sample) p' i'
    | (.error e, p') => (.error (.io e), p'.outlet.abandon)
  | (some (.error failure), _) => p.conclude (.error failure)
  | (none, i') => p.conclude (.ok ⟨p.written, i'.line⟩)
termination_by i.size
decreasing_by exact Intake.size_next _h

/-- Smooths all that arrives into a sink. -/
def smooth (arrivals : List Arrival) (sink : Sink) : Outcome × Sink :=
  smoothFrom .fresh (.onto sink) { later := arrivals }

end LowPass
