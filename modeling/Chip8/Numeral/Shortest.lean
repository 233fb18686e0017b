/-!
The shortest numeral of a binary fraction.

A floating point value stands for all reals that round to it, an interval around the value. Of
the decimals in that interval the numeral has as few digits as possible, and among those it is
the one nearest to the value. The search is exact arithmetic on naturals: it walks the grids
`10 ^ e` from coarse to fine, and takes the first one on which a neighbour of the value lies in
the interval (`hit?`).
-/
namespace Chip8.Numeral.Shortest

/-- The reals that round to a value: from `low / unit` to `high / unit` around `value / unit`,
ends included if `closed`. -/
structure Interval where
  low : Nat
  value : Nat
  high : Nat
  unit : Nat
  closed : Bool

/-- The interval of a finite value given by its sixty-four bits, the sign left out. The gap below
a power of two is half the gap above it, except at the bottom of the range. -/
def Interval.ofBits (bits : UInt64) : Interval :=
  let biased := ((bits >>> 52) &&& 0x7FF).toNat
  let fraction := (bits &&& 0xFFFFFFFFFFFFF).toNat
  let m := if biased = 0 then fraction else Nat.pow 2 52 + fraction
  let below := if fraction = 0 ∧ 1 < biased then 1 else 2
  -- a quarter of the last place of the significand is 2 ^ (e - 1077)
  let e := max biased 1
  let scale := Nat.pow 2 (e - 1077)
  ⟨(4 * m - below) * scale, 4 * m * scale, (4 * m + 2) * scale, Nat.pow 2 (1077 - e), m % 2 = 0⟩

/-- A decimal, `digits * 10 ^ exponent`. -/
structure Decimal where
  digits : Nat
  exponent : Int

/-- The grid `10 ^ e` as a quotient. -/
def grid (e : Int) : Nat × Nat :=
  (Nat.pow 10 e.toNat, Nat.pow 10 (-e).toNat)

/-- Whether the multiple `k` of the grid lies in the interval. -/
def Interval.covers (v : Interval) (e : Int) (k : Nat) : Bool :=
  let (num, den) := grid e
  let p := k * num * v.unit
  if v.closed then v.low * den ≤ p && p ≤ v.high * den else v.low * den < p && p < v.high * den

/-- The neighbour of the value on the grid `10 ^ e` that lies in its interval; of two the nearer,
and of two equally near the even one. -/
def Interval.hit? (v : Interval) (e : Int) : Option Decimal :=
  let (num, den) := grid e
  let step := num * v.unit
  let k := v.value * den / step
  match v.covers e k, v.covers e (k + 1) with
  | false, false => none
  | true, false => some ⟨k, e⟩
  | false, true => some ⟨k + 1, e⟩
  | true, true =>
    match compare (2 * v.value * den) ((2 * k + 1) * step) with
    | .lt => some ⟨k, e⟩
    | .gt => some ⟨k + 1, e⟩
    | .eq => some ⟨k + k % 2, e⟩

/-- The first hit from the grid `10 ^ 309`, above every finite value, down to one finer than every
gap between two values. -/
def Interval.decimal (v : Interval) : Decimal :=
  ((List.range 640).findSome? fun (i : Nat) => v.hit? (309 - (i : Int))).getD ⟨0, 0⟩

/-- Sixteen places before the point and four zeros after it are the most that are written out;
a numeral beyond has a signed exponent of at least two digits. -/
def Decimal.text (d : Decimal) : String :=
  let ds := toString d.digits
  let point := ds.length + d.exponent
  if -4 < point ∧ point ≤ 16 then
    if point ≤ 0 then "0." ++ "".pushn '0' (-point).toNat ++ ds
    else if 0 ≤ d.exponent then ds.pushn '0' d.exponent.toNat ++ ".0"
    else String.ofList (ds.toList.take point.toNat) ++ "."
      ++ String.ofList (ds.toList.drop point.toNat)
  else
    let rest := String.ofList (ds.toList.drop 1)
    let shift := toString (point - 1).natAbs
    String.ofList (ds.toList.take 1) ++ (if rest.isEmpty then "" else "." ++ rest)
      ++ (if point < 1 then "e-" else "e+") ++ "".pushn '0' (2 - shift.length) ++ shift

/-- The shortest numeral that reads back as the value. -/
def text (x : Float) : String :=
  let bits := x.toBits
  let sign := if bits >>> 63 = 1 then "-" else ""
  if x.isNaN then "nan"
  else if x.isInf then sign ++ "inf"
  else if bits <<< 1 = 0 then sign ++ "0.0"
  else sign ++ (Interval.ofBits bits).decimal.text

end Chip8.Numeral.Shortest
