import Chip8.Numeral.Hex
import Chip8.Text.Blank
import Chip8.Text.Quoted
import Chip8.Word

/-!
Bytes in text.

A byte is two hexadecimal digits, written in small letters and read in either case. Blanks may
stand between bytes, but not between the two digits of one. Reading gives back what was written
(`read?_write`).
-/
namespace Chip8.Text.Bytes

/-- The two digits of a byte. -/
def digits (b : Byte) : List Char := hexDigits 2 b.toNat

def write (bs : List Byte) : String := String.ofList (bs.flatMap digits)

/-- The value of a digit in a letter of either case. -/
def digit? (c : Char) : Option Nat := Numeral.Hex.digit? c.toUpper

/-- The byte of two digits. -/
def byte? (high low : Char) : Option Byte := do
  let h ← digit? high
  let l ← digit? low
  return BitVec.ofNat 8 (16 * h + l)

def readChars? : List Char → Option (List Byte)
  | [] => some []
  | [c] => if isBlank c then some [] else none
  | c :: d :: rest =>
    if isBlank c then readChars? (d :: rest)
    else (byte? c d).bind fun b => (readChars? rest).map (b :: ·)

/-- The bytes of a text, if that is all there is to it. -/
def read? (s : String) : Option (List Byte) := readChars? s.toList

theorem digit?_digitChar {d : Nat} (h : d < 16) :
    digit? (Nat.digitChar d) = some d ∧ isBlank (Nat.digitChar d) = false := by
  revert d
  decide

theorem readChars?_digits (b : Byte) (rest : List Char) :
    readChars? (digits b ++ rest) = (readChars? rest).map (b :: ·) := by
  have hb := b.isLt
  obtain ⟨hh, hn⟩ := digit?_digitChar (show b.toNat / 16 % 16 < 16 by omega)
  obtain ⟨hl, _⟩ := digit?_digitChar (show b.toNat % 16 < 16 by omega)
  have hs : 16 * (b.toNat / 16 % 16) + b.toNat % 16 = b.toNat := by omega
  simp [digits, hexDigits, readChars?, hn, byte?, hh, hl, hs]

theorem read?_write (bs : List Byte) : read? (write bs) = some bs := by
  rw [read?, write, String.toList_ofList]
  induction bs with
  | nil => rfl
  | cons b rest ih => rw [List.flatMap_cons, readChars?_digits, ih, Option.map_some]

end Chip8.Text.Bytes
