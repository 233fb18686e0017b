import Chip8.Instruction.Basic
import Chip8.Proofs.Table

/-!
Instructions by number.

Reading a word by its fields can be done with tables. Each field is the index of a number in a table
of its own, the leading nibble says which of the numbers counts (`number?`), and the number is the
index of what to execute (`executors`). Every index on the way has its entry, and the entry found
last is what `decode` says (`executor_number`).
-/
namespace Chip8.Dispatch
open Table

/-- The number of data, past the numbers of the instructions. -/
def data : Nat := 35

/-- A table of numbers from a list of its entries. Every other entry is data. -/
def numbers (size : Nat) (entries : List (Nat × Nat)) : Vector Nat size :=
  Vector.ofFn fun k => (entries.lookup k.val).getD data

/-- The families of one instruction. -/
def byFamily : Vector Nat 16 :=
  numbers 16 [(0x1, 3), (0x2, 4), (0x3, 5), (0x4, 6), (0x6, 8), (0x7, 9), (0xA, 20), (0xB, 21),
    (0xC, 22), (0xD, 23)]

/-- The operations `8XY_` by their last nibble. -/
def byOperation : Vector Nat 16 :=
  numbers 16 [(0x0, 10), (0x1, 11), (0x2, 12), (0x3, 13), (0x4, 14), (0x5, 15), (0x6, 16),
    (0x7, 17), (0xE, 18)]

/-- The tests of keys `EX__` by their low byte. -/
def byKeyTest : Vector Nat 256 := numbers 256 [(0x9E, 24), (0xA1, 25)]

/-- The rest, `FX__`, by their low byte. -/
def byLowByte : Vector Nat 256 :=
  numbers 256 [(0x07, 26), (0x0A, 27), (0x15, 28), (0x18, 29), (0x1E, 30), (0x29, 31), (0x33, 32),
    (0x55, 33), (0x65, 34)]

/-- The number of a word. All tables are read, whatever the family. -/
def number? (w : Word) : Option Nat := do
  let family ← get? byFamily w.family.toNat
  let operation ← get? byOperation w.n.toNat
  let keyTest ← get? byKeyTest w.nn.toNat
  let lowByte ← get? byLowByte w.nn.toNat
  return match w.family.toNat with
    | 0x0 => if w = 0x00E0 then 1 else if w = 0x00EE then 2 else 0
    | 0x5 => if w.n = 0 then 7 else data
    | 0x9 => if w.n = 0 then 19 else data
    | 0x8 => operation
    | 0xE => keyTest
    | 0xF => lowByte
    | _ => family

/-- What to execute, by number, for a word of each number: its instruction, or nothing for data. -/
def executors (w : Word) : Vector (Option Instruction) 36 := #v[
  some (.machineCode w.nnn), some .clear, some .ret, some (.jump w.nnn), some (.call w.nnn),
  some (.skip (.equals w.x w.nn)), some (.skip (.differs w.x w.nn)), some (.skip (.same w.x w.y)),
  some (.load w.x w.nn), some (.add w.x w.nn), some (.alu .copy w.x w.y), some (.alu .or w.x w.y),
  some (.alu .and w.x w.y), some (.alu .xor w.x w.y), some (.alu .add w.x w.y),
  some (.alu .sub w.x w.y), some (.alu .shiftRight w.x w.y), some (.alu .subFrom w.x w.y),
  some (.alu .shiftLeft w.x w.y), some (.skip (.distinct w.x w.y)), some (.setIndex w.nnn),
  some (.jumpOffset w.nnn), some (.random w.x w.nn), some (.draw w.x w.y w.n),
  some (.skip (.keyDown w.x)), some (.skip (.keyUp w.x)), some (.readDelay w.x),
  some (.waitKey w.x), some (.setDelay w.x), some (.setSound w.x), some (.addIndex w.x),
  some (.glyph w.x), some (.digits w.x), some (.store w.x), some (.restore w.x), none]

theorem get?_numbers {size k : Nat} (h : k < size) (entries : List (Nat × Nat)) :
    get? (numbers size entries) k = some ((entries.lookup k).getD data) := by
  rw [get?_natCast h, numbers, Vector.getElem_ofFn]

/-- Looking up the number of a word finds what the word spells. -/
theorem executor_number (w : Word) :
    (number? w).bind (fun k => get? (executors w) k) = some (Instruction.decode w) := by
  have hfamily := get?_numbers w.family.isLt
  have hn := get?_numbers w.n.isLt
  have hnn := get?_numbers w.nn.isLt
  simp only [number?, byFamily, byOperation, byKeyTest, byLowByte, hfamily, hn, hnn,
    Option.bind_eq_bind, Option.bind_some, Option.pure_def]
  -- by the family, in the order of `number?`, which leaves the families of one instruction for last
  split
  case h_1 hf =>
    simp only [Instruction.decode, hf]
    split
    · rfl
    · split <;> rfl
  case h_2 hf | h_3 hf =>
    simp only [Instruction.decode, hf]
    split <;> rfl
  case h_4 hf =>
    simp only [Instruction.decode, hf, Alu.ofCode?]
    split
    case h_10 =>
      rw [List.lookup_eq_none_iff.2 (by simp; grind)]
      rfl
    all_goals
      next hop =>
        simp only [hop]
        rfl
  case h_5 hf =>
    simp only [Instruction.decode, hf]
    split
    case h_3 =>
      rw [List.lookup_eq_none_iff.2 (by simp; grind)]
      rfl
    all_goals
      next hb =>
        simp only [hb]
        rfl
  case h_6 hf =>
    simp only [Instruction.decode, hf]
    split
    case h_10 =>
      rw [List.lookup_eq_none_iff.2 (by simp; grind)]
      rfl
    all_goals
      next hb =>
        simp only [hb]
        rfl
  case h_7 =>
    unfold Instruction.decode
    split
    case h_16 =>
      have := w.family.isLt
      grind
    all_goals
      next hf =>
        first
        | contradiction
        | simp only [hf]
          rfl

end Chip8.Dispatch
