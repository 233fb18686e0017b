/-!
Words of the machine.

A byte, a nibble, a twelve-bit address and a sixteen-bit word are bit vectors, so arithmetic on
them wraps by itself. An instruction word is read through its fields: `family`, `x`, `y`, `n`,
`nn`, `nnn`, and `toNat_eq_family`, `toNat_nnn` and `toNat_nn` say how they make it up.

Hosts speak in integers of any size. `signed?` lets an integer into a word of `bits` bits only if it
lies in the signed range of that width.
-/
namespace Chip8

abbrev Nibble := BitVec 4
abbrev Byte := BitVec 8
abbrev Address := BitVec 12
abbrev Word := BitVec 16

theorem Nibble.toNat_lt (x : Nibble) : x.toNat < 16 := x.isLt

/-- The two's complement word of an integer in the signed range of `bits` bits. -/
def signed? (bits : Nat) (n : Int) : Option (BitVec bits) :=
  if -Nat.pow 2 bits ≤ 2 * n ∧ 2 * n < Nat.pow 2 bits then some (BitVec.ofInt bits n) else none

/-- The entry an index means in a table of `size` entries: a negative index counts from the end,
and one that reaches neither way means no entry. -/
def slot? (size : Nat) (i : Int) : Option (Fin size) :=
  let k := if i < 0 then i + size else i
  if h : 0 ≤ k ∧ k < size then some ⟨k.toNat, by omega⟩ else none

/-- An entry of a table of sixteen. -/
theorem lt_sixteen (k : Fin 16) : k.val < 16 := k.isLt

theorem isSome_signed?_iff {bits : Nat} {n : Int} :
    (signed? bits n).isSome = true ↔ -Nat.pow 2 bits ≤ 2 * n ∧ 2 * n < Nat.pow 2 bits := by
  by_cases h : -Nat.pow 2 bits ≤ 2 * n ∧ 2 * n < Nat.pow 2 bits
  · rw [signed?, if_pos h]
    exact iff_of_true rfl h
  · rw [signed?, if_neg h]
    exact iff_of_false nofun h

theorem slot?_of_lt {size : Nat} {i : Int} (hi : 0 ≤ i) (h : i < size) :
    slot? size i = some ⟨i.toNat, by omega⟩ := by
  have hn : ¬ i < 0 := by omega
  simp [slot?, hn, hi, h]

theorem slot?_of_ge {size : Nat} {i : Int} (h : size ≤ i) : slot? size i = none := by
  have hn : ¬ i < 0 := by omega
  have hs : ¬ i < size := by omega
  simp [slot?, hn, hs]

namespace Word

/-- The leading nibble, which names the instruction family. -/
def family (w : Word) : Nibble := w.extractLsb' 12 4

/-- The second nibble, a register. -/
def x (w : Word) : Nibble := w.extractLsb' 8 4

/-- The third nibble, a register. -/
def y (w : Word) : Nibble := w.extractLsb' 4 4

/-- The last nibble. -/
def n (w : Word) : Nibble := w.extractLsb' 0 4

/-- The low byte. -/
def nn (w : Word) : Byte := w.extractLsb' 0 8

/-- The low twelve bits, an address. -/
def nnn (w : Word) : Address := w.extractLsb' 0 12

/-- The word of two bytes, the high one first. -/
def ofBytes (high low : Byte) : Word := high ++ low

/-- A word cut to the twelve bits of the address space. -/
def wrap (w : Word) : Word := (w.setWidth 12).setWidth 16

theorem toNat_eq_family (w : Word) : w.toNat = 4096 * w.family.toNat + w.nnn.toNat := by
  simp only [family, nnn, BitVec.extractLsb'_toNat, Nat.shiftRight_eq_div_pow]
  have := w.isLt
  omega

theorem toNat_nnn (w : Word) : w.nnn.toNat = 256 * w.x.toNat + w.nn.toNat := by
  simp only [nnn, x, nn, BitVec.extractLsb'_toNat, Nat.shiftRight_eq_div_pow]
  omega

theorem toNat_nn (w : Word) : w.nn.toNat = 16 * w.y.toNat + w.n.toNat := by
  simp only [nn, y, n, BitVec.extractLsb'_toNat, Nat.shiftRight_eq_div_pow]
  omega

theorem toNat_ofBytes (high low : Byte) :
    (ofBytes high low).toNat = 256 * high.toNat + low.toNat := by
  rw [ofBytes, BitVec.toNat_append, ← Nat.shiftLeft_add_eq_or_of_lt low.isLt, Nat.shiftLeft_eq]
  omega

theorem toNat_wrap (w : Word) : w.wrap.toNat = w.toNat % 4096 := by
  simp only [wrap, BitVec.toNat_setWidth]
  omega

/-- A sum wraps at the end of the address space. -/
theorem toNat_wrap_add (a b : Word) : (a + b).wrap.toNat = (a.toNat + b.toNat) % 4096 := by
  rw [toNat_wrap, BitVec.toNat_add]
  omega

theorem wrap_add (a b : Word) : (a + b).wrap = BitVec.ofNat 16 ((a.toNat + b.toNat) % 4096) := by
  apply BitVec.eq_of_toNat_eq
  rw [toNat_wrap_add, BitVec.toNat_ofNat]
  omega

/-- A word inside the address space is its own wrapping. -/
theorem wrap_of_lt {w : Word} (h : w.toNat < 4096) : w.wrap = w :=
  BitVec.eq_of_toNat_eq (by rw [toNat_wrap, Nat.mod_eq_of_lt h])

theorem wrap_wrap (w : Word) : w.wrap.wrap = w.wrap :=
  wrap_of_lt (by rw [toNat_wrap]; omega)

end Word
end Chip8
