/-
Text in yellow, by the escape sequences of terminals. Where the text itself
turns colours off, yellow is turned on again.
-/

namespace LowPass
namespace Colour

/-- Turns all colours off. -/
def reset : List Char := ['\x1b', '[', '0', 'm']

/-- Turns yellow on. -/
def yellow : List Char := ['\x1b', '[', '3', '3', 'm']

/-- Puts a style after every reset. -/
def restyle (style : List Char) : List Char → List Char
  | [] => []
  | c :: cs =>
    if reset.isPrefixOf (c :: cs) then reset ++ style ++ restyle style (cs.drop 3)
    else c :: restyle style cs
termination_by cs => cs.length

end Colour

/-- A text in yellow. -/
def inYellow (s : String) : String :=
  .ofList (Colour.yellow ++ Colour.restyle Colour.yellow s.toList ++ Colour.reset)

end LowPass
