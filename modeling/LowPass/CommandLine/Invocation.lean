/-
One call of the program: its arguments, its environment, and what comes of it.
Arguments that are not two operands are answered by the usage line, and nothing
else happens.
-/
import LowPass.CommandLine.Operands
import LowPass.CommandLine.Variables
import LowPass.FileRun

namespace LowPass

structure Invocation where
  /-- the arguments, the program's name first -/
  args : List Bytes
  environment : Variables := {}
  /-- whether standard output is a terminal -/
  terminal : Bool := false

namespace Invocation

/-- Does what is asked for. -/
def run {m : Type → Type} [Monad m] (host : Host m) (call : Invocation) : m Report :=
  match Operands.ofArguments call.args with
  | .error usage => return ⟨Failure.status, usage.message ++ "\n", []⟩
  | .ok operands =>
    runFiles host (call.environment.colours call.terminal) call.environment.logLevel operands.input
      operands.output

end Invocation
end LowPass
