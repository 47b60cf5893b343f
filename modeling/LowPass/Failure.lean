/-
The ways in which a run fails, what is said of each, and what it is due to.
-/
import LowPass.IoError
import LowPass.Text.Quoted

namespace LowPass

/-- Why a run failed. -/
inductive Failure where
  /-- The arguments are not two usable paths. -/
  | usage (program : String)
  /-- The input cannot be opened, or is a directory. -/
  | inputNotFound (path : String)
  | outputOpen (path : String) (error : IoError)
  /-- A word on a line of the input is no numeral. -/
  | malformedSample (word : String) (line : Nat)
  | io (error : IoError)
  deriving DecidableEq

namespace Failure

def message : Failure → String
  | .usage program => "Usage: " ++ program ++ " input output"
  | .inputNotFound path => "No such file: " ++ path
  | .outputOpen path _ => "Cannot open output file: " ++ path
  | .malformedSample word line =>
    "Malformed sample " ++ quoted word ++ " on line " ++ toString line
  | .io error => "I/O error: " ++ error.text

/-- The error that a failure is due to. -/
def error? : Failure → Option IoError
  | .outputOpen _ error => some error
  | .io error => some error
  | _ => none

/-- The texts of all that a failure is due to, nearest first. -/
def causes (f : Failure) : List String :=
  match f.error? with
  | none => []
  | some error => error.text :: Cause.textsOf error.cause?

/-- The exit status of a run that failed, in whatever way. -/
def status : Nat := 255

end Failure
end LowPass
