/-
A number in fixed decimal notation, with six places after the point.

The value is rounded to a whole number of millionths, to nearest, a half going
to the even neighbour; its digits are then cut before the last six. The sign is
kept through rounding, so a tiny negative number reads -0.000000. The text comes
in pieces: the sign, the part before the point, the zeros behind it, the digits.
-/
import LowPass.Rounding
import LowPass.Binary32.Basic

namespace LowPass
namespace Fixed

/-- The number of places after the point. -/
def places : Nat := 6

/-- A magnitude in millionths, rounded. -/
def millionths (mag : Nat) : Nat := nearestEven (mag * 1000000) (1 <<< 149)

/-- So many millionths, in pieces, none of them empty. -/
def pieces (count : Nat) : List (List Char) :=
  let digits := Nat.toDigits 10 count
  if count = 0 then [['0', '.'], List.replicate places '0']
  else if digits.length < places then
    [['0', '.'], List.replicate (places - digits.length) '0', digits]
  else if digits.length = places then [['0', '.'], digits]
  else
    let whole := digits.length - places
    [digits.take whole, ['.'], digits.drop whole]

end Fixed

/-- The decimal text of a number, in pieces, none of them empty. -/
def Binary32.fixedPieces : Binary32 → List (List Char)
  | .nan => [['N', 'a', 'N']]
  | .infinite negative => (if negative then [['-']] else []) ++ [['i', 'n', 'f']]
  | .finite negative mag _ =>
    (if negative then [['-']] else []) ++ Fixed.pieces (Fixed.millionths mag)

/-- The decimal text of a number, with six places. -/
def Binary32.fixed (x : Binary32) : List Char := x.fixedPieces.flatten

end LowPass
