import Chip8.Number
import Chip8.Text.Bytes
import Chip8.Text.Integer
import Chip8.Value

/-!
What the values of a host count as.

A host hands in values of any kind, and what they are handed in for decides how they are taken. A
count of things has to be an integer (`whole`). What goes into a machine word by itself may have a
fraction, which is lost, and is moved into the range of the word if it was a floating point value
(`moved`). What goes into a word as an entry of an array wraps around instead, and there texts are
read as numerals (`entry`). Integers that do not fit are refused in every case. `nested` takes a
list of lists as an array of several dimensions.
-/
namespace Chip8.Value

open Numeral (Binary)

/-- Whether a value counts as true. -/
def truth : Value → Bool
  | .none => false
  | .flag b => b
  | .integer n => n ≠ 0
  | .real x => x != 0
  | .string s => !s.isEmpty
  | .list items => !items.isEmpty
  | .table entries => !entries.isEmpty

/-- The values one after another that a value is made of; those of a text are its characters, and
those of a table its keys. -/
def items : Value → Except Refusal (List Value)
  | .list items => .ok items
  | .string s => .ok (s.toList.map fun c => .string c.toString)
  | .table entries => .ok (entries.map fun (key, _) => .string key)
  | _ => .error .wrongKind

/-- The bytes that a text of hexadecimal digits is made of. -/
def bytes : Value → Except Refusal (List Byte)
  | .string s => (Text.Bytes.read? s).elim (.error .unreadable) .ok
  | _ => .error .wrongKind

/-- The integer that a value is. -/
def whole (v : Value) : Except Refusal Int :=
  v.number?.elim (.error .wrongKind) .ok

/-- The number that a value is. -/
def number : Value → Except Refusal Number
  | .real x => .ok (.real x)
  | v => v.whole.map .whole

/-- A number in upper-case hexadecimal digits, of at least `width` places. -/
def hexadecimal (width : Nat) : Value → Except Refusal String
  | .real _ => .error (.noHexadecimal "float")
  | .string _ => .error (.noHexadecimal "str")
  | v => v.whole.map (Numeral.Hex.padded width)

/-! ### Numbers for machine words -/

/-- The significant binary digits that a number with a fraction is first rounded to. -/
def precision : Nat := 24

/-- The integer of a number from `low` to `high`. A floating point value is made one by `cut`, and
moved to the nearer end if it lies outside; other integers are left to wrap around if they have no
more than thirty-two bits. -/
def moved (cut : Binary → Int) (low high : Int) : Value → Except Refusal Int
  | .real x => .ok (max low (min high (cut ((Binary.ofFloat x).nearest precision))))
  | v => do
    let n ← v.whole
    if (signed? 32 n).isSome then .ok n else .error .outOfRange

/-- A number of thirty-two bits. -/
def int32 : Value → Except Refusal Int := moved Binary.truncated (-0x80000000) 0x7FFFFFFF

/-- A number of sixteen bits, to be an address. -/
def address (v : Value) : Except Refusal Word :=
  (moved Binary.truncated 0 0xFFFF v).map (BitVec.ofInt 16)

/-- The low sixteen bits of a number, to be an instruction. -/
def opcode (v : Value) : Except Refusal Word := v.int32.map (BitVec.ofInt 16)

/-- The number below which places are taken; with a fraction, that of the last place counts. -/
def bound : Value → Except Refusal Int := moved Binary.ceiling (-0x80000000) 0x7FFFFFFF

/-- The number of places that are made, none for a number below zero; with a fraction, that of the
last place counts. -/
def extent (v : Value) : Except Refusal Nat := do
  let n ← match v with
    | .real x => .ok (Binary.ofFloat x).ceiling
    | v => v.whole
  if n < 0x8000000000000000 then .ok n.toNat else .error .outOfRange

/-! ### Entries of arrays -/

/-- The integer that an entry of an array stands for: a fraction is lost, and a text is read as a
numeral. -/
def integral : Value → Except Refusal Int
  | .real x =>
    if x.isNaN then .error .notANumber else .ok (Binary.ofFloat x).truncated
  | .string s => (Text.integer? s).elim (.error (.noNumeral (Text.quote s))) .ok
  | v => v.whole

/-- An entry of an array whose entries have `bits` bits and start at `low`. Integers have to fit;
others wrap around if they have no more than sixty-four bits. -/
def entry (bits : Nat) (low : Int) (v : Value) : Except Refusal (BitVec bits) := do
  let n ← v.integral
  let fits := match v with
    | .integer n => decide (low ≤ n ∧ n < low + Nat.pow 2 bits)
    | _ => (signed? 64 n).isSome
  if fits then .ok (BitVec.ofInt bits n) else .error .outOfRange

/-- The outcome with no word on why a value was refused, except for one that is out of range. -/
def unexplained {α : Type} : Except Refusal α → Except Refusal α
  | .error .outOfRange => .error .outOfRange
  | .error _ => .error .unreadable
  | made => made

/-- A number without a sign in the state of a machine. -/
def unsigned (bits : Nat) (v : Value) : Except Refusal (BitVec bits) :=
  unexplained (v.entry bits 0)

/-- A number with a sign, of thirty-two bits, in the state of a machine. -/
def signed (v : Value) : Except Refusal Int :=
  unexplained ((v.entry 32 (-0x80000000)).map BitVec.toInt)

/-! ### Arrays of several dimensions -/

/-- Lists in lists: their lengths, from the outside in, and what is inside the innermost ones. If
they are not even, the lengths go as far as they agree. -/
structure Nested where
  shape : List Nat
  even : Bool
  leaves : List Value

namespace Nested

/-- What two lists have in common from the start. -/
def common : List Nat → List Nat → List Nat
  | m :: ms, n :: ns => if m = n then m :: common ms ns else []
  | _, _ => []

/-- Parts side by side. -/
def ofParts : List Nested → Nested
  | [] => ⟨[0], true, []⟩
  | first :: rest =>
    ⟨(rest.length + 1) :: rest.foldl (fun shape p => common shape p.shape) first.shape,
      first.even && rest.all fun p => p.even && p.shape = first.shape,
      (first :: rest).flatMap Nested.leaves⟩

end Nested

mutual

/-- A value as an array: lists are its axes, and all else is inside. -/
def nested : Value → Nested
  | .list items => Nested.ofParts (nestedItems items)
  | v => ⟨[], true, [v]⟩

def nestedItems : List Value → List Nested
  | [] => []
  | v :: rest => nested v :: nestedItems rest

/-- Whether a value is none, or holds one that is. -/
def holdsNone : Value → Bool
  | .none => true
  | .list items => itemHoldsNone items
  | .table entries => entryHoldsNone entries
  | _ => false

def itemHoldsNone : List Value → Bool
  | [] => false
  | v :: rest => holdsNone v || itemHoldsNone rest

def entryHoldsNone : List (String × Value) → Bool
  | [] => false
  | (_, v) :: rest => holdsNone v || entryHoldsNone rest

end

/-- A condition in the state of a machine. -/
def condition (v : Value) : Except Refusal Bool :=
  if v.holdsNone then .error .unreadable else .ok v.truth

/-! ### Values of the right kind -/

/-- An integer that fits is taken as it is, and no other integer is taken. -/
theorem entry_integer (bits : Nat) (low n : Int) :
    entry bits low (.integer n) =
      if low ≤ n ∧ n < low + Nat.pow 2 bits then .ok (BitVec.ofInt bits n)
      else .error .outOfRange := by
  by_cases h : low ≤ n ∧ n < low + Nat.pow 2 bits
  all_goals
    simp only [entry, integral, whole, number?, h, bind, Except.bind]
    simp

/-- A byte is the entry that its number stands for. -/
theorem entry_byte (b : Byte) : entry 8 0 (.integer b.toNat) = .ok b := by
  have hb : (0 : Int) ≤ b.toNat ∧ (b.toNat : Int) < 0 + Nat.pow 2 8 := by
    rw [Int.zero_add]
    exact ⟨Int.natCast_nonneg _, Int.ofNat_lt.2 b.isLt⟩
  rw [entry_integer, if_pos hb, BitVec.ofInt_natCast, BitVec.ofNat_toNat, BitVec.setWidth_eq]

end Chip8.Value
