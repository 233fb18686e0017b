import Chip8.Text.Printable

/-!
Strings in quotes.

A quoted string shows where it begins and ends, and every character in it. What cannot be shown as
it is stands as an escape: a backslash and a letter, or a backslash, a letter for the width, and so
many hexadecimal digits. So a quoted string is printable, whatever is in it.
-/
namespace Chip8.Text

/-- The last `width` hexadecimal digits of a number. -/
def hexDigits : Nat → Nat → List Char
  | 0, _ => []
  | width + 1, n => hexDigits width (n / 16) ++ [Nat.digitChar (n % 16)]

/-- A character by its code point, in as few of two, four and eight digits as it needs. -/
def numbered (c : Char) : List Char :=
  if c.toNat < 0x100 then '\\' :: 'x' :: hexDigits 2 c.toNat
  else if c.toNat < 0x10000 then '\\' :: 'u' :: hexDigits 4 c.toNat
  else '\\' :: 'U' :: hexDigits 8 c.toNat

/-- A character between two quotation marks. -/
def escaped (mark c : Char) : List Char :=
  if c = mark ∨ c = '\\' then ['\\', c]
  else if c = '\n' then ['\\', 'n']
  else if c = '\r' then ['\\', 'r']
  else if c = '\t' then ['\\', 't']
  else if isPrintable c then [c]
  else numbered c

/-- The marks for a string: single ones, unless they would have to be escaped and double ones
not. -/
def markFor (s : String) : Char :=
  if s.toList.contains '\'' && !s.toList.contains '"' then '"' else '\''

/-- A string in quotes. -/
def quote (s : String) : String :=
  String.ofList (markFor s :: s.toList.flatMap (escaped (markFor s)) ++ [markFor s])

end Chip8.Text
