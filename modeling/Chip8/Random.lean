import Chip8.Argument

/-!
Random bytes.

A `Key` is two words of thirty-two bits. `scramble` is a counter-based generator: under a key it
sends a block to another that cannot be told from a random one. Twenty rounds add, rotate and
combine by exclusive or; the key comes in again after every four.

The machine holds one key. Drawing a byte takes two blocks of it: one is the key of all later
draws (`advance`), the other makes the byte (`byte`). So the bytes drawn depend on the seed and on
nothing else.
-/
namespace Chip8.Random

/-- A key, and also a block. -/
structure Key where
  first : BitVec 32
  second : BitVec 32
  deriving DecidableEq, Repr

/-- The distances of rotation in a group of four rounds; two rows take turns. -/
def rotations (group : Nat) : List Nat :=
  if group % 2 = 0 then [13, 15, 26, 6] else [17, 29, 16, 24]

/-- One round. -/
def round (b : Key) (distance : Nat) : Key :=
  let sum := b.first + b.second
  ⟨sum, b.second.rotateLeft distance ^^^ sum⟩

/-- The three words that a key brings in by turns. -/
def schedule (k : Key) (i : Nat) : BitVec 32 :=
  match i % 3 with
  | 0 => k.first
  | 1 => k.second
  | _ => k.first ^^^ k.second ^^^ 0x1BD11BDA

/-- Four rounds, and the key added after them. -/
def group (k : Key) (b : Key) (i : Nat) : Key :=
  let mixed := (rotations i).foldl round b
  ⟨mixed.first + schedule k (i + 1), mixed.second + schedule k (i + 2) + BitVec.ofNat 32 (i + 1)⟩

/-- The block that a block is sent to under a key. -/
def scramble (k b : Key) : Key :=
  (List.range 5).foldl (group k) ⟨b.first + schedule k 0, b.second + schedule k 1⟩

/-- The seed that a host gives: an integer of sixty-four bits. -/
def seedOfValue (v : Value) : Except Refusal (BitVec 64) :=
  match v with
  | .none => .error .unreadable
  | v => do (signed? 64 (← v.whole)).elim (.error .outOfRange) .ok

namespace Key

/-- The key of a seed: its low thirty-two bits. -/
def ofSeed (seed : BitVec 64) : Key := ⟨0, seed.setWidth 32⟩

/-- The key of the draws that follow a draw. -/
def advance (k : Key) : Key := scramble k ⟨0, 0⟩

/-- The byte that a draw gives. -/
def byte (k : Key) : Byte :=
  let own := scramble k ⟨0, 1⟩
  let block := scramble (scramble own ⟨0, 1⟩) ⟨0, 0⟩
  (block.first ^^^ block.second).setWidth 8

end Key
end Chip8.Random
