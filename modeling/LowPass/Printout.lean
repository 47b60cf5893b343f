/-
Samples printed to a sink, one a line, with six decimal places. A sample counts
as written when its whole line has been accepted; accepted pieces of a line that
failed later stay where they are.
-/
import LowPass.Outlet
import LowPass.Decimal.Fixed

namespace LowPass

/-- The line of a sample, in the pieces in which it is written. -/
def Binary32.linePieces (x : Binary32) : List Bytes :=
  (x.fixedPieces ++ [['\n']]).map Utf8.encode

/-- The line of a sample. -/
def Binary32.line (x : Binary32) : Bytes := x.linePieces.flatten

structure Printout where
  outlet : Outlet
  written : Nat := 0

namespace Printout

/-- A printout with nothing in it yet. -/
def onto (sink : Sink) : Printout := { outlet := { sink } }

/-- Prints one sample. -/
def print (p : Printout) (x : Binary32) : Except IoError Unit × Printout :=
  match p.outlet.putAll x.linePieces with
  | (.ok (), outlet) => (.ok (), { outlet, written := p.written + 1 })
  | (.error e, outlet) => (.error e, { p with outlet })

/-- Prints samples in turn, going on after a failure. Each outcome stands beside
the count after it. -/
def printAll (p : Printout) : List Binary32 → List (Except IoError Unit × Nat) × Printout
  | [] => ([], p)
  | x :: xs =>
    let (result, p) := p.print x
    let (results, last) := p.printAll xs
    ((result, p.written) :: results, last)

/-- Ends the printout. -/
def finish (p : Printout) : Except IoError Unit × Sink := p.outlet.close

end Printout
end LowPass
