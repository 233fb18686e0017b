import Chip8.Word

/-!
Instructions and their words.

An `Instruction` carries its operands; `decode` reads a word as an instruction, and a word that is
none is data. `encode` is the other direction: `encode_of_decode` says that a word read as an
instruction is that instruction's word, so no two words read alike.

`ofInt?` reads an integer of any size without cutting it to a word. It looks the integer up in
lists, by the digits that a word has as fields, except that only the very numbers `0x00E0` and
`0x00EE` clear the screen and return.
-/
namespace Chip8

/-- The operations on two registers, `8XY_`. -/
inductive Alu where
  | copy
  | or
  | and
  | xor
  | add
  | sub
  | shiftRight
  /-- Subtract the target from the source. -/
  | subFrom
  | shiftLeft
  deriving DecidableEq, Repr

/-- When an instruction skips the next one. -/
inductive Condition where
  | equals (x : Nibble) (n : Byte)
  | differs (x : Nibble) (n : Byte)
  | same (x y : Nibble)
  | distinct (x y : Nibble)
  | keyDown (x : Nibble)
  | keyUp (x : Nibble)
  deriving DecidableEq, Repr

inductive Instruction where
  /-- Call machine code of the host computer, `0NNN`. -/
  | machineCode (target : Address)
  | clear
  | ret
  | jump (target : Address)
  | call (target : Address)
  | skip (c : Condition)
  | load (x : Nibble) (n : Byte)
  | add (x : Nibble) (n : Byte)
  | alu (op : Alu) (x y : Nibble)
  | setIndex (target : Address)
  | jumpOffset (target : Address)
  | random (x : Nibble) (mask : Byte)
  | draw (x y height : Nibble)
  | readDelay (x : Nibble)
  | waitKey (x : Nibble)
  | setDelay (x : Nibble)
  | setSound (x : Nibble)
  | addIndex (x : Nibble)
  /-- Point `I` at the glyph of a digit, `FX29`. -/
  | glyph (x : Nibble)
  /-- Store the three decimal digits of a register, `FX33`. -/
  | digits (x : Nibble)
  | store (x : Nibble)
  | restore (x : Nibble)
  deriving DecidableEq, Repr

/-- The last nibble of `8XY_`. -/
def Alu.code : Alu → Nibble
  | .copy => 0x0
  | .or => 0x1
  | .and => 0x2
  | .xor => 0x3
  | .add => 0x4
  | .sub => 0x5
  | .shiftRight => 0x6
  | .subFrom => 0x7
  | .shiftLeft => 0xE

def Alu.ofCode? (n : Nibble) : Option Alu :=
  match n.toNat with
  | 0x0 => some .copy
  | 0x1 => some .or
  | 0x2 => some .and
  | 0x3 => some .xor
  | 0x4 => some .add
  | 0x5 => some .sub
  | 0x6 => some .shiftRight
  | 0x7 => some .subFrom
  | 0xE => some .shiftLeft
  | _ => none

namespace Instruction

/-- The instruction that a word spells, if it spells one. -/
def decode (w : Word) : Option Instruction :=
  match w.family.toNat with
  | 0x0 => some (if w = 0x00E0 then .clear else if w = 0x00EE then .ret else .machineCode w.nnn)
  | 0x1 => some (.jump w.nnn)
  | 0x2 => some (.call w.nnn)
  | 0x3 => some (.skip (.equals w.x w.nn))
  | 0x4 => some (.skip (.differs w.x w.nn))
  | 0x5 => if w.n = 0 then some (.skip (.same w.x w.y)) else none
  | 0x6 => some (.load w.x w.nn)
  | 0x7 => some (.add w.x w.nn)
  | 0x8 => (Alu.ofCode? w.n).map fun op => .alu op w.x w.y
  | 0x9 => if w.n = 0 then some (.skip (.distinct w.x w.y)) else none
  | 0xA => some (.setIndex w.nnn)
  | 0xB => some (.jumpOffset w.nnn)
  | 0xC => some (.random w.x w.nn)
  | 0xD => some (.draw w.x w.y w.n)
  | 0xE =>
    match w.nn.toNat with
    | 0x9E => some (.skip (.keyDown w.x))
    | 0xA1 => some (.skip (.keyUp w.x))
    | _ => none
  | _ =>
    match w.nn.toNat with
    | 0x07 => some (.readDelay w.x)
    | 0x0A => some (.waitKey w.x)
    | 0x15 => some (.setDelay w.x)
    | 0x18 => some (.setSound w.x)
    | 0x1E => some (.addIndex w.x)
    | 0x29 => some (.glyph w.x)
    | 0x33 => some (.digits w.x)
    | 0x55 => some (.store w.x)
    | 0x65 => some (.restore w.x)
    | _ => none

/-- What an integer of any size has in the places of the operands. -/
structure Operands where
  x : Nibble
  y : Nibble
  n : Nibble
  nn : Byte
  nnn : Address

def Operands.ofInt (k : Int) : Operands where
  x := BitVec.ofInt 4 (k / 0x100)
  y := BitVec.ofInt 4 (k / 0x10)
  n := BitVec.ofInt 4 k
  nn := BitVec.ofInt 8 k
  nnn := BitVec.ofInt 12 k

/-- The families of one instruction, by the leading nibble. -/
def families (o : Operands) : List (Int × Instruction) :=
  [(0x1, .jump o.nnn), (0x2, .call o.nnn), (0x3, .skip (.equals o.x o.nn)),
    (0x4, .skip (.differs o.x o.nn)), (0x6, .load o.x o.nn), (0x7, .add o.x o.nn),
    (0xA, .setIndex o.nnn), (0xB, .jumpOffset o.nnn), (0xC, .random o.x o.nn),
    (0xD, .draw o.x o.y o.n)]

/-- The operations `8XY_`, by the last nibble. -/
def operations (o : Operands) : List (Int × Instruction) :=
  [(0x0, .alu .copy o.x o.y), (0x1, .alu .or o.x o.y), (0x2, .alu .and o.x o.y),
    (0x3, .alu .xor o.x o.y), (0x4, .alu .add o.x o.y), (0x5, .alu .sub o.x o.y),
    (0x6, .alu .shiftRight o.x o.y), (0x7, .alu .subFrom o.x o.y), (0xE, .alu .shiftLeft o.x o.y)]

/-- The tests of keys `EX__`, by the low byte. -/
def keyTests (o : Operands) : List (Int × Instruction) :=
  [(0x9E, .skip (.keyDown o.x)), (0xA1, .skip (.keyUp o.x))]

/-- The rest, `FX__`, by the low byte. -/
def others (o : Operands) : List (Int × Instruction) :=
  [(0x07, .readDelay o.x), (0x0A, .waitKey o.x), (0x15, .setDelay o.x), (0x18, .setSound o.x),
    (0x1E, .addIndex o.x), (0x29, .glyph o.x), (0x33, .digits o.x), (0x55, .store o.x),
    (0x65, .restore o.x)]

/-- The instruction that an integer of any size spells. It is looked up by the leading nibble of its
low sixteen bits, and if the family has more than one instruction, by what follows; but of family
zero the integer counts as a whole. -/
def ofInt? (k : Int) : Option Instruction :=
  let o := Operands.ofInt k
  let family := k / 0x1000 % 0x10
  match (families o).lookup family with
  | some i => some i
  | none =>
    if family = 0x0 then
      some (if k = 0x00E0 then .clear else if k = 0x00EE then .ret else .machineCode o.nnn)
    else if family = 0x5 then if k % 0x10 = 0 then some (.skip (.same o.x o.y)) else none
    else if family = 0x9 then if k % 0x10 = 0 then some (.skip (.distinct o.x o.y)) else none
    else if family = 0x8 then (operations o).lookup (k % 0x10)
    else if family = 0xE then (keyTests o).lookup (k % 0x100)
    else (others o).lookup (k % 0x100)

/-- A word with a register in its second nibble and a byte after it. -/
def withByte (family x : Nibble) (n : Byte) : Word := family ++ x ++ n

/-- A word with two registers and a last nibble. -/
def withPair (family x y n : Nibble) : Word := family ++ x ++ (y ++ n : Byte)

/-- A word with an address. -/
def withAddress (family : Nibble) (a : Address) : Word := family ++ a

/-- The word that spells an instruction. -/
def encode : Instruction → Word
  | .machineCode a => withAddress 0x0 a
  | .clear => 0x00E0
  | .ret => 0x00EE
  | .jump a => withAddress 0x1 a
  | .call a => withAddress 0x2 a
  | .skip (.equals x n) => withByte 0x3 x n
  | .skip (.differs x n) => withByte 0x4 x n
  | .skip (.same x y) => withPair 0x5 x y 0
  | .load x n => withByte 0x6 x n
  | .add x n => withByte 0x7 x n
  | .alu op x y => withPair 0x8 x y op.code
  | .skip (.distinct x y) => withPair 0x9 x y 0
  | .setIndex a => withAddress 0xA a
  | .jumpOffset a => withAddress 0xB a
  | .random x n => withByte 0xC x n
  | .draw x y n => withPair 0xD x y n
  | .skip (.keyDown x) => withByte 0xE x 0x9E
  | .skip (.keyUp x) => withByte 0xE x 0xA1
  | .readDelay x => withByte 0xF x 0x07
  | .waitKey x => withByte 0xF x 0x0A
  | .setDelay x => withByte 0xF x 0x15
  | .setSound x => withByte 0xF x 0x18
  | .addIndex x => withByte 0xF x 0x1E
  | .glyph x => withByte 0xF x 0x29
  | .digits x => withByte 0xF x 0x33
  | .store x => withByte 0xF x 0x55
  | .restore x => withByte 0xF x 0x65

/-! ### A word is made of its fields -/

theorem toNat_withAddress (f : Nibble) (a : Address) :
    (withAddress f a).toNat = 4096 * f.toNat + a.toNat := by
  rw [withAddress, BitVec.toNat_append, ← Nat.shiftLeft_add_eq_or_of_lt a.isLt, Nat.shiftLeft_eq]
  omega

theorem toNat_withByte (f x : Nibble) (n : Byte) :
    (withByte f x n).toNat = 4096 * f.toNat + 256 * x.toNat + n.toNat := by
  rw [withByte, BitVec.toNat_append, BitVec.toNat_append, ← Nat.shiftLeft_add_eq_or_of_lt x.isLt,
    ← Nat.shiftLeft_add_eq_or_of_lt n.isLt, Nat.shiftLeft_eq, Nat.shiftLeft_eq]
  omega

theorem toNat_withPair (f x y n : Nibble) :
    (withPair f x y n).toNat = 4096 * f.toNat + 256 * x.toNat + 16 * y.toNat + n.toNat := by
  have h := toNat_withByte f x (y ++ n)
  rw [BitVec.toNat_append, ← Nat.shiftLeft_add_eq_or_of_lt n.isLt, Nat.shiftLeft_eq] at h
  rw [withPair]
  unfold withByte at h
  omega

theorem withAddress_eq {w : Word} {f : Nibble} (hf : w.family.toNat = f.toNat) :
    withAddress f w.nnn = w :=
  BitVec.eq_of_toNat_eq (by rw [toNat_withAddress, Word.toNat_eq_family w, hf])

theorem withByte_eq {w : Word} {f : Nibble} {n : Byte} (hf : w.family.toNat = f.toNat)
    (hn : w.nn.toNat = n.toNat) : withByte f w.x n = w :=
  BitVec.eq_of_toNat_eq (by
    rw [toNat_withByte, Word.toNat_eq_family w, Word.toNat_nnn, hf, hn]
    omega)

theorem withPair_eq {w : Word} {f n : Nibble} (hf : w.family.toNat = f.toNat)
    (hn : w.n.toNat = n.toNat) : withPair f w.x w.y n = w :=
  BitVec.eq_of_toNat_eq (by
    rw [toNat_withPair, Word.toNat_eq_family w, Word.toNat_nnn, Word.toNat_nn, hf, hn]
    omega)

theorem Alu.code_of_ofCode? {n : Nibble} {op : Alu} (h : Alu.ofCode? n = some op) :
    n.toNat = op.code.toNat := by
  unfold Alu.ofCode? at h
  split at h <;> first | contradiction | (cases h; assumption)

/-- A word read as an instruction is the word of that instruction. -/
theorem encode_of_decode {w : Word} {i : Instruction} (h : decode w = some i) : encode i = w := by
  unfold decode at h
  split at h
  case h_1 hf =>
    cases h
    split
    · next hw => exact hw.symm
    · split
      · next hw => exact hw.symm
      · exact withAddress_eq hf
  case h_9 hf =>
    obtain ⟨op, hop, rfl⟩ := Option.map_eq_some_iff.1 h
    exact withPair_eq hf (Alu.code_of_ofCode? hop)
  case h_6 hf | h_10 hf =>
    split at h
    · next hn => cases h; exact withPair_eq hf (congrArg BitVec.toNat hn)
    · contradiction
  case h_14 hf => cases h; exact withPair_eq hf rfl
  case h_2 hf | h_3 hf | h_11 hf | h_12 hf => cases h; exact withAddress_eq hf
  case h_4 hf | h_5 hf | h_7 hf | h_8 hf | h_13 hf => cases h; exact withByte_eq hf rfl
  case h_15 hf =>
    split at h
    case h_3 => contradiction
    all_goals next hn => cases h; exact withByte_eq hf hn
  case h_16 =>
    have hf : w.family.toNat = (0xF : Nibble).toNat := by
      have := w.family.isLt
      change w.family.toNat = 15
      grind
    split at h
    case h_10 => contradiction
    all_goals next hn => cases h; exact withByte_eq hf hn

end Instruction
end Chip8
