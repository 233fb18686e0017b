import Chip8.Memory

/-!
What a transfer does to memory.

A transfer writes its places one after the other, each wrapped to twelve bits.
`firstProtected?_eq_some_iff` says which protected place is found: the first in the order of
writing, which is not the lowest when the transfer wraps at the end of memory. `read_transfer_of_ne`
is the frame: a byte at none of the places stays. `read_transfer_place` is the effect: each place
has its value, as long as the transfer does not come round.
-/
namespace Chip8.Memory

/-! ### The first protected place -/

theorem isProtected_iff {a : Address} : isProtected a = true ↔ a.toNat < programStart := by
  simp [isProtected]

theorem firstProtected?_eq_none_iff {start : Int} {count : Nat} :
    firstProtected? start count = none ↔ ∀ i < count, programStart ≤ (place start i).toNat := by
  simp only [firstProtected?, places, List.find?_eq_none, List.mem_map, List.mem_range,
    isProtected_iff, Nat.not_lt]
  constructor
  · intro h i hi
    exact h _ ⟨i, hi, rfl⟩
  · rintro h a ⟨i, hi, rfl⟩
    exact h i hi

theorem firstProtected?_eq_some_iff {start : Int} {count : Nat} {a : Address} :
    firstProtected? start count = some a ↔
      ∃ i < count, place start i = a ∧ a.toNat < programStart ∧
        ∀ j < i, programStart ≤ (place start j).toNat := by
  simp only [firstProtected?, places, List.find?_eq_some_iff_getElem, isProtected_iff,
    List.getElem_map, List.getElem_range, List.length_map, List.length_range,
    Bool.not_eq_true', ← Bool.not_eq_true, Nat.not_lt]
  constructor
  · rintro ⟨ha, i, hi, hp, hj⟩
    exact ⟨i, hi, hp, ha, hj⟩
  · rintro ⟨i, hi, hp, ha, hj⟩
    exact ⟨ha, i, hi, hp, hj⟩

/-! ### The frame of a transfer -/

/-- A byte that is the old one, at a place that gets no new byte, is still the old one in the end. A
place past the count may be that byte's own, for the old byte is written there. -/
theorem read_transferFrom_of_ne {old : Memory} {start count : Int} {a : Address} {i : Nat}
    {m : Memory} {values : List Byte} (hm : m.read a = old.read a)
    (ha : ∀ j : Nat, i ≤ j → j < i + values.length → j < count → place start j ≠ a) :
    (transferFrom old start count i m values).read a = old.read a := by
  induction values generalizing i m with
  | nil => exact hm
  | cons b rest ih =>
    rw [List.length_cons] at ha
    rw [transferFrom]
    apply ih
    · rw [read_write]
      split
      · next hp =>
        have hc : ¬ (i : Int) < count := fun hc => ha i (by omega) (by omega) hc hp
        rw [if_neg hc, hp]
      · exact hm
    · intro j hj hlen
      exact ha j (by omega) (by omega)

theorem read_transfer_of_ne {m : Memory} {start count : Int} {values : List Byte} {a : Address}
    (ha : ∀ j : Nat, j < values.length → j < count → place start j ≠ a) :
    (m.transfer start values count).read a = m.read a :=
  read_transferFrom_of_ne rfl fun j _ hlen hc => ha j (by omega) hc

/-- Places of one transfer differ, as long as it does not come round. -/
theorem place_ne {start : Int} {i j : Nat} (h : i < j) (hj : j < i + 4096) :
    place start i ≠ place start j := by
  intro he
  have hi := toNat_place start i
  rw [he, toNat_place] at hi
  omega

/-- A transfer that meets no protected place changes no protected byte. -/
theorem read_transfer_of_protected {m : Memory} {start : Int} {values : List Byte} {a : Address}
    (h : firstProtected? start values.length = none) (ha : a.toNat < programStart) :
    (m.transfer start values values.length).read a = m.read a := by
  apply read_transfer_of_ne
  intro j hj _ hp
  have hfree := firstProtected?_eq_none_iff.1 h j hj
  rw [hp] at hfree
  omega

/-! ### The count of a transfer -/

theorem write_read (m : Memory) (a : Address) : m.write a (m.read a) = m :=
  Vector.set_getElem_self a.isLt

theorem transferFrom_append (old : Memory) (start count : Int) (i : Nat) (m : Memory)
    (first rest : List Byte) :
    transferFrom old start count i m (first ++ rest) =
      transferFrom old start count (i + first.length) (transferFrom old start count i m first)
        rest := by
  induction first generalizing i m with
  | nil => rfl
  | cons b first ih =>
    rw [List.cons_append, transferFrom, ih, transferFrom, List.length_cons]
    congr 1
    omega

/-- Past the count a transfer puts back what was there. -/
theorem transferFrom_past {old : Memory} {start : Int} {count i : Nat} {m : Memory}
    {values : List Byte} (hi : count ≤ i)
    (hm : ∀ j : Nat, i ≤ j → j < i + values.length →
      m.read (place start j) = old.read (place start j)) :
    transferFrom old start count i m values = m := by
  induction values generalizing i with
  | nil => rfl
  | cons b rest ih =>
    rw [List.length_cons] at hm
    have hc : ¬ (i : Int) < count := by omega
    rw [transferFrom, if_neg hc, ← hm i (Nat.le_refl i) (by omega), write_read]
    apply ih (by omega)
    intro j hj hlen
    exact hm j (by omega) (by omega)

/-- The values past the count of a transfer do not matter, unless it comes round. -/
theorem transfer_take {m : Memory} {start : Int} {values : List Byte} {count : Nat}
    (h : values.length ≤ 4096) :
    m.transfer start values count = m.transfer start (values.take count) count := by
  by_cases hc : values.length ≤ count
  · rw [List.take_of_length_le hc]
  have hlen : (values.take count).length = count := List.length_take_of_le (by omega)
  have hsplit := List.take_append_drop count values
  rw [transfer, ← hsplit, transferFrom_append, hlen, Nat.zero_add, hsplit]
  apply transferFrom_past (Nat.le_refl count)
  intro j hj hdrop
  rw [List.length_drop] at hdrop
  apply read_transfer_of_ne
  intro i hi _
  rw [hlen] at hi
  exact place_ne (by omega) (by omega)

/-! ### The bytes of a transfer -/

/-- A byte at none of the places that are left is not written any more. -/
theorem read_transferFrom_of_not_place {old : Memory} {start count : Int} {a : Address} {i : Nat}
    {m : Memory} {values : List Byte}
    (ha : ∀ j : Nat, i ≤ j → j < i + values.length → place start j ≠ a) :
    (transferFrom old start count i m values).read a = m.read a := by
  induction values generalizing i m with
  | nil => rfl
  | cons b rest ih =>
    rw [List.length_cons] at ha
    have hi : place start i ≠ a := ha i (Nat.le_refl i) (by omega)
    rw [transferFrom, ih fun j hj hlen => ha j (by omega) (by omega), read_write, if_neg hi]

theorem read_transferFrom_place {old : Memory} {start count : Int} {i k : Nat} {m : Memory}
    {values : List Byte} (h : values.length ≤ 4096) (hk : k < values.length)
    (hc : (i + k : Nat) < count) :
    (transferFrom old start count i m values).read (place start (i + k)) = values[k] := by
  induction values generalizing i k m with
  | nil => exact absurd hk (Nat.not_lt_zero k)
  | cons b rest ih =>
    rw [List.length_cons] at h hk
    rw [transferFrom]
    cases k with
    | zero =>
      have hlater : ∀ j : Nat, i + 1 ≤ j → j < i + 1 + rest.length →
          place start j ≠ place start i :=
        fun j hj hlen => Ne.symm (place_ne (by omega) (by omega))
      simp only [Nat.add_zero] at hc ⊢
      rw [read_transferFrom_of_not_place hlater, read_write, if_pos rfl, if_pos hc]
      rfl
    | succ k =>
      have hshift : i + (k + 1) = i + 1 + k := by omega
      rw [hshift] at hc ⊢
      exact ih (by omega) (by omega) hc

/-- After a transfer each of its places has its value, unless it comes round. -/
theorem read_transfer_place {m : Memory} {start count : Int} {values : List Byte} {k : Nat}
    (h : values.length ≤ 4096) (hk : k < values.length) (hc : k < count) :
    (m.transfer start values count).read (place start k) = values[k] := by
  have hplace : place start k = place start (0 + k) := by rw [Nat.zero_add]
  rw [transfer, hplace]
  exact read_transferFrom_place h hk (by omega)

/-- What was written is read back. -/
theorem readAll_transfer {m : Memory} {start count : Int} {values : List Byte} {k : Nat}
    (h : values.length ≤ 4096) (hk : k ≤ values.length) (hc : k ≤ count.toNat) :
    (m.transfer start values count).readAll start k = values.take k := by
  apply List.ext_getElem
  · simp [readAll, places, hk]
  · intro i hi _
    simp only [readAll, places, List.length_map, List.length_range] at hi
    simp only [readAll, places, List.getElem_map, List.getElem_range, List.getElem_take]
    exact read_transfer_place h (by omega) (by omega)

/-- A place is the same if it is counted in thirty-two bits, which may be too few for the sum. -/
theorem setWidth_add_eq_place (start : Int) (i : Nat) :
    (BitVec.ofInt 32 start + BitVec.ofNat 32 i).setWidth 12 = place start i := by
  apply BitVec.eq_of_toNat_eq
  have hplace := toNat_place start i
  rw [BitVec.toNat_setWidth, BitVec.toNat_add, BitVec.toNat_ofInt, BitVec.toNat_ofNat]
  omega

end Chip8.Memory
