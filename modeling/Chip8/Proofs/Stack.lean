import Chip8.Stack

/-!
Stacks that a machine can have.

A stack by itself can be driven anywhere. A machine refuses the push on a full stack and the pop of
an empty one, and on such calls a stack stays `Sound`: the pointer counts from zero to sixteen, a
slot holds an address, and the slots that are free are clear.
-/
namespace Chip8.Stack

structure Sound (s : Stack) : Prop where
  pointer_nonneg : 0 ≤ s.pointer
  pointer_le : s.pointer ≤ 16
  slot_lt : ∀ k : Fin 16, s.slots[k].toNat < 4096
  free : ∀ k : Fin 16, s.pointer ≤ k → s.slots[k] = 0

theorem sound_empty : empty.Sound where
  pointer_nonneg := by decide
  pointer_le := by decide
  slot_lt := by decide
  free := by decide

theorem getElem_write {slots : Vector Word 16} {i : Int} (hi : 0 ≤ i) (h : i < 16) (w : Word)
    (k : Fin 16) : (write slots i w)[k] = if i = k then w else slots[k] := by
  have hk := k.isLt
  have hentry : slot? 16 i = some ⟨i.toNat, by omega⟩ := slot?_of_lt hi h
  simp only [write, hentry, Fin.getElem_fin, Vector.getElem_set]
  by_cases he : i = k
  · rw [if_pos he, if_pos (by omega)]
  · rw [if_neg he, if_neg (by omega)]

theorem Sound.push {s : Stack} (h : s.Sound) (hfull : s.pointer < 16) (a : Word) :
    (s.push a).1.Sound where
  pointer_nonneg := by
    have := h.pointer_nonneg
    simp only [Stack.push]
    omega
  pointer_le := by
    simp only [Stack.push]
    omega
  slot_lt k := by
    simp only [Stack.push, getElem_write h.pointer_nonneg hfull]
    split
    · rw [Word.toNat_wrap]
      omega
    · exact h.slot_lt k
  free k hk := by
    simp only [Stack.push] at hk ⊢
    rw [getElem_write h.pointer_nonneg hfull, if_neg (by omega)]
    exact h.free k (by omega)

/-- The place of the entry that a pop takes. -/
theorem Sound.top {s : Stack} (h : s.Sound) :
    0 ≤ max (s.pointer - 1) 0 ∧ max (s.pointer - 1) 0 < 16 := by
  have := h.pointer_le
  omega

theorem Sound.pop {s : Stack} (h : s.Sound) : s.pop.stack.Sound where
  pointer_nonneg := h.top.1
  pointer_le := Int.le_of_lt h.top.2
  slot_lt k := by
    simp only [Stack.pop, getElem_write h.top.1 h.top.2]
    split
    · decide
    · exact h.slot_lt k
  free k hk := by
    simp only [Stack.pop] at hk ⊢
    rw [getElem_write h.top.1 h.top.2]
    split
    · rfl
    · exact h.free k (by omega)

theorem Sound.address_lt {s : Stack} (h : s.Sound) : s.pop.address.toNat < 4096 :=
  h.slot_lt ⟨min (max (s.pointer - 1) 0).toNat 15, by omega⟩

end Chip8.Stack
