import Chip8.Numeral.Fixed

/-!
Numbers of limited precision.

`nearest bits n` keeps `bits` significant binary digits of an integer, rounded in the last place
that is kept. A number that has no more digits stays as it is.
-/
namespace Chip8.Numeral.Significant

/-- The last place that is kept of a number. -/
def lastPlace (bits n : Nat) : Nat :=
  Nat.pow 2 (n.log2 + 1 - bits)

/-- The number of at most `bits` significant binary digits nearest to `n`; of two equally near, the
one that is even in the last place. -/
def nearest (bits : Nat) (n : Int) : Int :=
  let unit := lastPlace bits n.natAbs
  n.sign * (Fixed.roundHalfEven n.natAbs unit * unit : Nat)

end Chip8.Numeral.Significant
