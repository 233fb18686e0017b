import Chip8.Numeral.Significant

/-!
Binary fractions.

A `Binary` is an integer over a power of two, of any size and exact. Every finite floating point
value is one (`ofFloat?`). It is made an integer by `ceiling` and by `truncated`.
-/
namespace Chip8.Numeral

/-- The fraction `numerator / 2 ^ places`. -/
structure Binary where
  numerator : Int
  places : Nat
  deriving DecidableEq, Repr

namespace Binary

def ofInt (n : Int) : Binary := ⟨n, 0⟩

/-- The value of a floating point number, unless it is infinite or no number at all. -/
def ofFloat? (x : Float) : Option Binary :=
  let bits := x.toBits
  let biased := ((bits >>> 52) &&& 0x7FF).toNat
  let fraction := (bits &&& 0xFFFFFFFFFFFFF).toNat
  let m : Int := if biased = 0 then fraction else Nat.pow 2 52 + fraction
  let m := if bits >>> 63 = 1 then -m else m
  -- the last place of the significand is 2 ^ (e - 1075)
  let e := max biased 1
  if biased = 0x7FF then none else some ⟨m * Nat.pow 2 (e - 1075), 1075 - e⟩

/-- The value of a floating point number. An infinite one counts as one beyond all that are finite,
and what is no number as zero. -/
def ofFloat (x : Float) : Binary :=
  match ofFloat? x with
  | some b => b
  | none => if x.isNaN then ofInt 0 else ofInt (if x < 0 then -Nat.pow 2 1024 else Nat.pow 2 1024)

/-- The number under the fraction line. -/
def denominator (b : Binary) : Nat := Nat.pow 2 b.places

/-- The smallest integer that is not below a fraction. -/
def ceiling (b : Binary) : Int := -(-b.numerator / b.denominator)

/-- A fraction without what is after the point. -/
def truncated (b : Binary) : Int := b.numerator.tdiv b.denominator

/-- The numerators of two fractions over one denominator of so many places. -/
def aligned (a b : Binary) : Int × Int × Nat :=
  (a.numerator * Nat.pow 2 b.places, b.numerator * Nat.pow 2 a.places, a.places + b.places)

def sub (a b : Binary) : Binary :=
  let (m, n, places) := aligned a b
  ⟨m - n, places⟩

/-- What a whole number of times `b` leaves of `a`; it has the sign of `a`. -/
def remainder (a b : Binary) : Binary :=
  let (m, n, places) := aligned a b
  ⟨m.tmod n, places⟩

/-- The fraction of at most so many significant binary digits nearest to a fraction. -/
def nearest (bits : Nat) (b : Binary) : Binary :=
  ⟨Significant.nearest bits b.numerator, b.places⟩

end Binary
end Chip8.Numeral
