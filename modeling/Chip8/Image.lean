import Chip8.Argument

/-!
Program images.

A host hands in an image as a pattern of bytes and a number of copies of it, so that the size of an
image is known before it is made.
-/
namespace Chip8

structure Image where
  pattern : List Byte
  copies : Nat

namespace Image

def size (i : Image) : Nat := i.copies * i.pattern.length

/-- The copies one after another. -/
def bytes (i : Image) : List Byte :=
  if i.pattern.isEmpty then [] else (List.replicate i.copies i.pattern).flatten

/-- The image of a pattern and a number of copies, both that and its size of sixty-four bits. -/
def ofValues (pattern copies : Value) : Except Refusal Image := do
  let bytes ← pattern.bytes
  let n ← copies.whole
  let i : Image := ⟨bytes, n.toNat⟩
  if (signed? 64 n).isSome && (signed? 64 i.size).isSome then .ok i else .error .outOfRange

end Image
end Chip8
