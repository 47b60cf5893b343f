/-
A text in quotes, on one line and visible as it is: a character that would end
the quotes, break the line, join the character before it or not show at all is
written as an escape.
-/
import LowPass.Text.Invisible
import LowPass.Text.Unassigned
import LowPass.Text.Extending

namespace LowPass

/-- Characters that do not show by themselves. Of the spaces only U+0020 is
plain. -/
def isHidden (c : Char) : Bool :=
  extending.has c || controls.has c || formats.has c || breaks.has c ||
    (spaces.has c && c != ' ') || ignorable.has c || privateUse.has c || unassigned.has c

namespace Quoted

/-- A code point as an escape: its hexadecimal digits, lower case, in braces. -/
def codePoint (c : Char) : List Char :=
  ['\\', 'u', '\x7b'] ++ Nat.toDigits 16 c.toNat ++ ['\x7d']

/-- How one character is written. -/
def ofChar (c : Char) : List Char :=
  if c = '"' then ['\\', '"']
  else if c = '\\' then ['\\', '\\']
  else if c = '\t' then ['\\', 't']
  else if c = '\r' then ['\\', 'r']
  else if c = '\n' then ['\\', 'n']
  else if c = '\x00' then ['\\', '0']
  else if isHidden c then codePoint c
  else [c]

end Quoted

/-- A text in quotes. -/
def quoted (s : String) : String :=
  .ofList ('"' :: (s.toList.flatMap Quoted.ofChar ++ ['"']))

end LowPass
