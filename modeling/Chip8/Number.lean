import Chip8.Fault
import Chip8.Numeral.Binary

/-!
Numbers of a host.

A number is whole, of any size, or a floating point value. Two whole numbers make a whole number;
where one of two is a floating point value, so is what they make.
-/
namespace Chip8

inductive Number where
  | whole (n : Int)
  | real (x : Float)

namespace Number

/-- The floating point value of a number. Beyond the largest one there is none. -/
def toFloat : Number → Except Refusal Float
  | .whole n =>
    let x := Float.ofInt n
    if x.isInf then .error .outOfRange else .ok x
  | .real x => .ok x

/-- Two whole numbers by one operation, others by another. -/
def combine (exact : Int → Int → Except Refusal Int) (rounded : Float → Float → Except Refusal Float)
    (a b : Number) : Except Refusal Number :=
  match a, b with
  | .whole m, .whole n => (exact m n).map .whole
  | a, b => do
    let x ← a.toFloat
    let y ← b.toFloat
    return .real (← rounded x y)

def add : Number → Number → Except Refusal Number :=
  combine (fun m n => .ok (m + n)) (fun x y => .ok (x + y))

/-- What a whole number of times `y` leaves of `x`, exactly. Nothing but all of a finite value is
left by an infinite one. -/
def leftover (x y : Float) : Float :=
  match Numeral.Binary.ofFloat? x, Numeral.Binary.ofFloat? y with
  | some a, some b =>
    let r := a.remainder b
    (Float.ofInt r.numerator).scaleB (-r.places)
  | some _, none => if y.isNaN then y else x
  | none, _ => x - x

/-- The largest whole number not above a quotient. What is left of `x` is taken off before the
division, so that a quotient just below a whole number is not rounded up to it. -/
def floorQuotient (x y : Float) : Float :=
  let r := leftover x y
  let q := (x - r) / y
  let q := if r != 0 && (decide (y < 0) != decide (r < 0)) then q - 1 else q
  if 0.5 < q - q.floor then q.floor + 1 else q.floor

/-- Division with the quotient cut downwards to a whole number. -/
def floorDiv : Number → Number → Except Refusal Number :=
  combine (fun m n => if n = 0 then .error (.zeroRate true) else .ok (m.fdiv n))
    (fun x y => if y == 0 then .error (.zeroRate false) else .ok (floorQuotient x y))

/-- Whether a number is greater than a whole number. -/
def exceeds (a : Number) (n : Int) : Bool :=
  match a with
  | .whole m => n < m
  | .real x => Float.ofInt n < x

/-- The number, or one if it is not greater. -/
def atLeastOne (a : Number) : Number :=
  if a.exceeds 1 then a else .whole 1

end Number
end Chip8
