import Chip8.Text.Blank

/-!
Integers in text.

Decimal digits, after a sign or none. Blanks may stand around an integer, and an underscore between
any two of its digits.
-/
namespace Chip8.Text

/-- The number that digits write after a number already read. -/
def natural? (read : Nat) : List Char → Option Nat
  | [] => some read
  | '_' :: d :: rest => if d.isDigit then natural? (10 * read + (d.toNat - 48)) rest else none
  | d :: rest => if d.isDigit then natural? (10 * read + (d.toNat - 48)) rest else none

/-- The number that digits write, of which there has to be one. -/
def digits? : List Char → Option Nat
  | [] => none
  | d :: rest => if d.isDigit then natural? (d.toNat - 48) rest else none

/-- The integer that a text writes. -/
def integer? (s : String) : Option Int :=
  match stripped s.toList with
  | '-' :: rest => (digits? rest).map fun n => -(n : Int)
  | '+' :: rest => (digits? rest).map Int.ofNat
  | cs => (digits? cs).map Int.ofNat

end Chip8.Text
