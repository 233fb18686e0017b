import Chip8.Fault

/-!
The stack of return addresses.

Sixteen slots and a pointer to the first free one. A push on a full stack is reported, and the
pointer moves on all the same, so that as many pops lead back: the machine discards the result, but
the stack by itself can be driven there. A pop clears the slot it empties. A slot beyond the last is
never written, and reading it gives the last slot.
-/
namespace Chip8

structure Stack where
  slots : Vector Word 16
  pointer : Int
  deriving DecidableEq, Repr

namespace Stack

def empty : Stack := ⟨Vector.replicate 16 0, 0⟩

/-- The slots with one replaced; an index that means no slot replaces none. -/
def write (slots : Vector Word 16) (i : Int) (w : Word) : Vector Word 16 :=
  match slot? 16 i with
  | some k => slots.set k w (lt_sixteen k)
  | none => slots

/-- Put an address on the stack, cut to twelve bits; true if the stack was full. -/
def push (s : Stack) (a : Word) : Stack × Bool :=
  (⟨write s.slots s.pointer a.wrap, s.pointer + 1⟩, decide ((stackDepth : Int) ≤ s.pointer))

structure Popped where
  stack : Stack
  address : Word
  /-- The stack was empty. -/
  underflow : Bool
  deriving DecidableEq, Repr

/-- Take the last address off the stack. -/
def pop (s : Stack) : Popped :=
  let top := max (s.pointer - 1) 0
  ⟨⟨write s.slots top 0, top⟩, s.slots[min top.toNat 15], decide (s.pointer ≤ 0)⟩

/-- The addresses from the bottom of the stack up. -/
def addresses (s : Stack) : List Word :=
  if s.pointer < 0 then s.slots.toList.take (16 - s.pointer.natAbs)
  else s.slots.toList.take s.pointer.toNat

end Stack
end Chip8
