/-
The operands of the program: two paths, taken as they are, whatever option they
look like. Only an argument that cannot stand for itself is refused: one that
is empty, that is the mark `--`, or that begins with it and is no text up to
its first equals sign.
-/
import LowPass.Failure
import LowPass.Log.Record

namespace LowPass

/-- The paths of a run. -/
structure Operands where
  input : Bytes
  output : Bytes
  deriving DecidableEq

namespace Operands

/-- Two hyphens. -/
def mark : Bytes := [0x2D, 0x2D]

/-- Whether an argument can be an operand. -/
def accepts (arg : Bytes) : Bool :=
  arg ≠ [] && arg ≠ mark &&
    (!mark.isPrefixOf arg || (Utf8.decode? (arg.takeWhile (· ≠ 0x3D))).isSome)

/-- The name by which the program was called. -/
def calledAs : List Bytes → String
  | [] => programName
  | program :: _ => program.lossyText

/-- Reads the arguments, the program's name first. -/
def ofArguments (args : List Bytes) : Except Failure Operands :=
  match args with
  | [_, input, output] =>
    if accepts input && accepts output then .ok ⟨input, output⟩
    else .error (.usage (calledAs args))
  | _ => .error (.usage (calledAs args))

end Operands
end LowPass
