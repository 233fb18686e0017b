/-!
Numerals with a fixed number of decimal places.

A quotient is rounded once, exactly, to the nearest multiple of the last place, and one halfway
between two multiples to the even one.
-/
namespace Chip8.Numeral.Fixed

/-- The integer nearest to `num / den`; of two equally near, the even one. -/
def roundHalfEven (num den : Nat) : Nat :=
  let q := num / den
  let r := num % den
  if 2 * r < den then q else if den < 2 * r then q + 1 else q + q % 2

/-- A decimal numeral of `num / den` with `places` digits after the point. A negative quotient
keeps its sign even where it rounds to zero. -/
def text (places : Nat) (num : Int) (den : Nat) : String :=
  let scaled := roundHalfEven (num.natAbs * Nat.pow 10 places) den
  let fraction := toString (scaled % Nat.pow 10 places)
  (if num < 0 then "-" else "") ++ toString (scaled / Nat.pow 10 places) ++ "."
    ++ "".pushn '0' (places - fraction.length) ++ fraction

/-- A text moved to the right end of a field of at least `width` characters. -/
def rightAligned (width : Nat) (s : String) : String :=
  "".pushn ' ' (width - s.length) ++ s

end Chip8.Numeral.Fixed
