/-
Errors that have causes. An error has a text of its own and may be due to
another error, which has its own cause in turn; the chain is finite.
-/

namespace LowPass

/-- An error seen as a cause: its text and what it is due to. -/
inductive Cause where
  | root (text : String)
  | dueTo (text : String) (cause : Cause)
  deriving DecidableEq

namespace Cause

/-- The error's own text. -/
def text : Cause → String
  | .root text => text
  | .dueTo text _ => text

/-- What the error is due to. -/
def cause? : Cause → Option Cause
  | .root _ => none
  | .dueTo _ cause => some cause

/-- The texts of the chain, the error's own first. -/
def texts : Cause → List String
  | .root text => [text]
  | .dueTo text cause => text :: cause.texts

/-- The chain with the given texts. -/
def ofTexts (first : String) : List String → Cause
  | [] => .root first
  | second :: rest => .dueTo first (ofTexts second rest)

@[simp] theorem texts_ofTexts (first : String) (rest : List String) :
    (ofTexts first rest).texts = first :: rest := by
  induction rest generalizing first with
  | nil => rfl
  | cons second rest ih => simp [ofTexts, texts, ih]

/-- The texts of an error that may be absent. -/
def textsOf : Option Cause → List String
  | none => []
  | some cause => cause.texts

end Cause

/-- The texts of a chain of causes on one line. -/
def chainText (texts : List String) : String := ": ".intercalate texts

end LowPass
