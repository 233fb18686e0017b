import Chip8.Fault

/-!
Memory.

Memory is 4096 bytes, and an address of twelve bits always names one of them. A transfer of many
bytes starts at any integer; place `i` of it is `place start i`, so it wraps at the end of memory.
The machine keeps the area below `0x200` for itself: it holds the glyphs, and a program that writes
there is at fault (`firstProtected?`).

`read_write` says what one write does, `read_load` what loading a program does. A transfer writes
place by place (`transfer`); the places past its count put back the byte that was there before.
-/
namespace Chip8

abbrev Memory := Vector Byte 4096

/-- The hexadecimal digits as sprites, five rows of four pixels each. -/
def glyphs : List Byte := [
  0xF0, 0x90, 0x90, 0x90, 0xF0,
  0x20, 0x60, 0x20, 0x20, 0x70,
  0xF0, 0x10, 0xF0, 0x80, 0xF0,
  0xF0, 0x10, 0xF0, 0x10, 0xF0,
  0x90, 0x90, 0xF0, 0x10, 0x10,
  0xF0, 0x80, 0xF0, 0x10, 0xF0,
  0xF0, 0x80, 0xF0, 0x90, 0xF0,
  0xF0, 0x10, 0x20, 0x40, 0x40,
  0xF0, 0x90, 0xF0, 0x90, 0xF0,
  0xF0, 0x90, 0xF0, 0x10, 0xF0,
  0xF0, 0x90, 0xF0, 0x90, 0x90,
  0xE0, 0x90, 0xE0, 0x90, 0xE0,
  0xF0, 0x80, 0x80, 0x80, 0xF0,
  0xE0, 0x90, 0x90, 0x90, 0xE0,
  0xF0, 0x80, 0xF0, 0x80, 0xF0,
  0xF0, 0x80, 0xF0, 0x80, 0x80]

/-- The address of the first glyph. -/
def glyphStart : Nat := 0

/-- The bytes of one glyph. -/
def glyphSize : Nat := 5

namespace Memory

def zero : Memory := Vector.replicate 4096 0

/-- The byte at an address. -/
def read (m : Memory) (a : Address) : Byte :=
  have := a.isLt
  m[a.toNat]

/-- Memory with one byte replaced. -/
def write (m : Memory) (a : Address) (b : Byte) : Memory := m.set a.toNat b a.isLt

/-- The byte a sixteen-bit counter points at. A counter beyond the end of memory points at the
last byte. -/
def readWord (m : Memory) (w : Word) : Byte :=
  m.read (if w.toNat < 4096 then w.setWidth 12 else 0xFFF)

/-- Memory with `bytes` from an address on, as far as they fit. -/
def load (m : Memory) (start : Nat) (bytes : List Byte) : Memory :=
  let spliced := (m.toList.take start ++ bytes ++ m.toList.drop (start + bytes.length)).take 4096
  ⟨spliced.toArray, by
    have : m.toList.length = 4096 := m.length_toList
    simp only [spliced, List.size_toArray, List.length_take, List.length_append, List.length_drop]
    omega⟩

/-- The memory of a machine without a program. -/
def fresh : Memory := zero.load glyphStart glyphs

/-! ### Transfers -/

/-- Place `i` of a transfer that starts at `start`. -/
def place (start : Int) (i : Nat) : Address := BitVec.ofInt 12 (start + i)

/-- The places of a transfer of `count` bytes. -/
def places (start : Int) (count : Nat) : List Address :=
  (List.range count).map (place start)

/-- The bytes at the places of a transfer. -/
def readAll (m : Memory) (start : Int) (count : Nat) : List Byte :=
  (places start count).map m.read

/-- Whether an address lies in the area of the machine. -/
def isProtected (a : Address) : Bool := a.toNat < programStart

/-- The bytes from `start` up to `stop`, for a host to look at. A negative bound counts from the end
of memory, and bounds past either end are moved to it. -/
def slice (m : Memory) (start stop : Int) : List Byte :=
  let bound (i : Int) : Nat := if i < 0 then (i + 4096).toNat else min i.toNat 4096
  (m.toList.drop (bound start)).take (bound stop - bound start)

/-- The first place of a transfer in the area of the machine. -/
def firstProtected? (start : Int) (count : Nat) : Option Address :=
  (places start count).find? isProtected

/-- Memory `m` after a transfer from place `i` on: place by place a byte of `values` if the place
is below `count`, else the byte of `old`. -/
def transferFrom (old : Memory) (start : Int) (count : Int) (i : Nat) (m : Memory) :
    List Byte → Memory
  | [] => m
  | b :: rest =>
    let a := place start i
    transferFrom old start count (i + 1) (m.write a (if i < count then b else old.read a)) rest

/-- Memory after the first `count` of `values` are written from `start` on. -/
def transfer (m : Memory) (start : Int) (values : List Byte) (count : Int) : Memory :=
  transferFrom m start count 0 m values

/-! ### What reading sees -/

theorem read_write (m : Memory) (a b : Address) (v : Byte) :
    (m.write a v).read b = if a = b then v else m.read b := by
  simp only [read, write, Vector.getElem_set, BitVec.toNat_inj]

theorem read_load (m : Memory) (start : Nat) (bytes : List Byte) (a : Address) :
    (m.load start bytes).read a =
      if start ≤ a.toNat then bytes.getD (a.toNat - start) (m.read a) else m.read a := by
  have ha : a.toNat < 4096 := a.isLt
  have hm : m.toList.length = 4096 := m.length_toList
  have hr : m.toList[a.toNat] = m.read a := Vector.getElem_toList ..
  rw [List.getD_eq_getElem?_getD]
  by_cases hs : start ≤ a.toNat
  · have hmin : min start 4096 = start := by omega
    by_cases hb : a.toNat - start < bytes.length
    · simp [load, read, hm, hs, hb, hmin]
    · have hrest : start + bytes.length + (a.toNat - start - bytes.length) = a.toNat := by omega
      simp [load, read, List.getElem_append, hm, hs, hb, hmin, hrest]
  · have hfirst : a.toNat < min start 4096 := by omega
    simp [load, read, hm, hs, hfirst]

theorem read_zero (a : Address) : zero.read a = 0 := by
  simp [zero, read]

theorem toNat_place (start : Int) (i : Nat) : ((place start i).toNat : Int) = (start + i) % 4096 := by
  rw [place, BitVec.toNat_ofInt]
  omega

end Memory
end Chip8
