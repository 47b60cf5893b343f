/-
Environment variables. A name that is empty, or has an equals sign or a NUL in
it, names no variable, and a value that is no UTF-8 counts as none.
-/
import LowPass.Log.Level

namespace LowPass

/-- The variables that are set; of two with one name the first counts. -/
structure Variables where
  pairs : List (String × Bytes) := []

namespace Variables

def IsName (name : String) : Prop :=
  name ≠ "" ∧ '=' ∉ name.toList ∧ '\x00' ∉ name.toList

instance (name : String) : Decidable (IsName name) := by unfold IsName; infer_instance

/-- The text of a variable that is set. -/
def get? (vars : Variables) (name : String) : Option String :=
  if IsName name then (vars.pairs.lookup name).bind Bytes.text? else none

/-- The text of a variable, or else a fallback, or else nothing. -/
def getOr (vars : Variables) (name : String) (fallback : Option String) : String :=
  (vars.get? name).getD (fallback.getD "")

/-- The variable that sets the threshold of the log. -/
def logName : String := "RC_FILTER_LOG"

/-- The threshold of the log. -/
def logLevel (vars : Variables) : Level := .ofText (vars.getOr logName (some "info"))

/-- Whether output is coloured. Colour can be forced; if it is not it can be
refused, and otherwise it is for terminals alone and can be turned off. -/
def colours (vars : Variables) (terminal : Bool) : Bool :=
  if ((vars.get? "CLICOLOR_FORCE").getD "0") ≠ "0" then true
  else if (vars.get? "NO_COLOR").isSome then false
  else terminal && ((vars.get? "CLICOLOR").getD "1") ≠ "0"

end Variables
end LowPass
