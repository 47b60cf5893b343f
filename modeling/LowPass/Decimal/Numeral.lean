/-
Numerals: how a sample is spelled, and the binary32 value it stands for.

A numeral is an optional sign and then either a name (`inf`, `infinity`, `nan`,
in any case) or decimal digits with at most one point, at least one digit, and
an optional exponent after `e` or `E`. The value is the nearest binary32
number, ties to even, however many digits there are.
-/
import LowPass.Binary32.Round

namespace LowPass

/-- What a numeral stands for, exactly. -/
inductive Numeral where
  | nan
  | infinity (negative : Bool)
  /-- `± digits · 10 ^ exponent` -/
  | decimal (negative : Bool) (digits : Nat) (exponent : Int)
  deriving DecidableEq

namespace Numeral

/-- The value of a decimal digit. -/
def digit (c : Char) : Nat := c.toNat - 48

/-- The number that decimal digits spell. -/
def ofDigits (cs : List Char) : Nat := cs.foldl (fun n c => n * 10 + digit c) 0

/-- Splits a sign off. -/
def sign : List Char → Bool × List Char
  | '+' :: cs => (false, cs)
  | '-' :: cs => (true, cs)
  | cs => (false, cs)

/-- The size of an exponent. Once it has reached 2¹⁶ further digits are
skipped: a number whose other digits are fewer than that is then zero or
infinite whatever they are. -/
def exponentSize (cs : List Char) : Nat :=
  cs.foldl (fun e c => if e < 0x10000 then e * 10 + digit c else e) 0

/-- The exponent that ends a numeral, `0` when there is none. -/
def exponent? : List Char → Option Int
  | [] => some 0
  | c :: cs =>
    let (negative, digits) := sign cs
    if (c = 'e' ∨ c = 'E') ∧ digits ≠ [] ∧ digits.all Char.isDigit then
      some (if negative then -(exponentSize digits : Int) else exponentSize digits)
    else none

/-- The digits after a point, if there is one, and what follows them. -/
def fraction : List Char → List Char × List Char
  | '.' :: cs => (cs.takeWhile Char.isDigit, cs.dropWhile Char.isDigit)
  | cs => ([], cs)

/-- Digits with a point and an exponent, read as an integer and a power of ten. -/
def decimal? (negative : Bool) (cs : List Char) : Option Numeral :=
  let whole := cs.takeWhile Char.isDigit
  let (parts, rest) := fraction (cs.dropWhile Char.isDigit)
  if whole = [] ∧ parts = [] then none
  else (exponent? rest).map fun e => .decimal negative (ofDigits (whole ++ parts)) (e - parts.length)

/-- The values that have a name instead of digits. -/
def named? (negative : Bool) (cs : List Char) : Option Numeral :=
  let name := String.ofList (cs.map Char.toLower)
  if name = "inf" ∨ name = "infinity" then some (.infinity negative)
  else if name = "nan" then some .nan
  else none

/-- Reads a numeral, which has to be the whole text. -/
def ofText? (cs : List Char) : Option Numeral :=
  let (negative, body) := sign cs
  decimal? negative body <|> named? negative body

/-- The nearest binary32 value. -/
def value : Numeral → Binary32
  | .nan => .nan
  | .infinity negative => .infinite negative
  | .decimal negative digits exponent =>
    if 0 ≤ exponent then .ofRatio negative ((digits * Nat.pow 10 exponent.toNat) <<< 149) 1
    else .ofRatio negative (digits <<< 149) (Nat.pow 10 (-exponent).toNat)

end Numeral

/-- The sample that a word spells, if it is a numeral. -/
def Binary32.ofText? (cs : List Char) : Option Binary32 := (Numeral.ofText? cs).map Numeral.value

end LowPass
