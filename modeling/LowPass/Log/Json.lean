/-
Log records as JSON, one object on one line. A string keeps its characters but
for quotes, backslashes and controls, so a record never spans lines.
-/
import LowPass.Log.Record

namespace LowPass
namespace Json

/-- A control character by its code point, in four hexadecimal digits. -/
def codePoint (c : Char) : List Char :=
  let digits := Nat.toDigits 16 c.toNat
  ['\\', 'u'] ++ List.replicate (4 - digits.length) '0' ++ digits

/-- How one character is written in a string. -/
def ofChar (c : Char) : List Char :=
  if c = '"' then ['\\', '"']
  else if c = '\\' then ['\\', '\\']
  else if c = '\n' then ['\\', 'n']
  else if c = '\r' then ['\\', 'r']
  else if c = '\t' then ['\\', 't']
  else if c.toNat = 0x08 then ['\\', 'b']
  else if c.toNat = 0x0C then ['\\', 'f']
  else if c.toNat < 0x20 then codePoint c
  else [c]

def ofText (s : String) : List Char := '"' :: (s.toList.flatMap ofChar ++ ['"'])

def ofValue : FieldValue → List Char
  | .text s => ofText s
  | .count n => Nat.toDigits 10 n

/-- An object, its fields in the given order. -/
def ofFields (fields : List (String × FieldValue)) : List Char :=
  let members := fields.map fun (name, value) => ofText name ++ ':' :: ofValue value
  '\x7b' :: ([','].intercalate members ++ ['\x7d'])

end Json

/-- The record of an event, without its line end. -/
def Event.record (e : Event) : String := .ofList (Json.ofFields e.fields)

end LowPass
