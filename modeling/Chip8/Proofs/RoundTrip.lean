import Chip8.Proofs.FaultCondition

/-!
Registers through memory.

A program saves registers with one instruction and loads them with another. Both count their places
from `I` and wrap at the end of memory, and both move `I` on or both leave it, as the dialect has it
(`toNat_index_afterMove`). What a write leaves in memory is said place by place (`read_of_store`),
and so is what a load takes from there (`v_of_restore`). The main result `restore_store` is that one
undoes the other, whatever became of the registers in between, and that the decimal digits of a
register, once loaded, add up to it.
-/
namespace Chip8.State
variable {d : Dialect} {s t u w : State} {x : Nibble}

/-- A word that leaves no fault record had the effect of its instruction. -/
theorem perform_of_execute {i : Instruction} {address : Word} (hi : ¬ Instruction.Shadowed i)
    (h : (s.execute d (Instruction.encode i) address).fault.code = 0) :
    s.perform d i = .ok (s.execute d (Instruction.encode i) address) := by
  rcases execute_cases d s (Instruction.encode i) address with ⟨hr, -⟩ | ⟨-, -, ho⟩
  · exact absurd h (raised_iff.1 hr)
  · rw [outcome_encode hi] at ho
    exact ho

theorem toNat_index_afterMove (d : Dialect) (s : State) (x : Nibble) :
    (s.afterMove d x).index.toNat =
      if d.moveAdvancesIndex then (s.index.toNat + (x.toNat + 1)) % 4096 else s.index.toNat := by
  have hx := x.isLt
  have hsmall : (x.toNat + 1) % 2 ^ 16 = x.toNat + 1 := Nat.mod_eq_of_lt (by omega)
  rw [afterMove]
  split
  · rw [Word.toNat_wrap_add, BitVec.toNat_ofNat, hsmall]
  · rfl

/-! ### Writes -/

/-- A program's write puts its values in their places and leaves all other bytes. -/
theorem read_of_store {values : List Byte} (hlength : values.length ≤ 4096)
    (h : s.store values = .ok t) :
    (∀ i (hi : i < values.length), t.memory.read (Memory.place s.index.toNat i) = values[i]) ∧
      ∀ a : Address, (∀ i < values.length, a.toNat ≠ (s.index.toNat + i) % 4096) →
        t.memory.read a = s.memory.read a := by
  obtain ⟨-, rfl⟩ := store_eq_ok_iff.1 h
  constructor
  · intro i hi
    exact Memory.read_transfer_place hlength hi (Int.ofNat_lt.2 hi)
  · intro a ha
    apply Memory.read_transfer_of_ne
    rintro i hi - rfl
    exact ha i hi (toNat_place_nat s.index.toNat i)

theorem getElem_take_registers {r : Nibble}
    (hr : r.toNat < (s.registers.toList.take (x.toNat + 1)).length) :
    (s.registers.toList.take (x.toNat + 1))[r.toNat] = s.v r := by
  simp [v, Registers.read]

/-- A store writes the registers up to `x`, and then moves `I`. -/
theorem store_of_perform (h : s.perform d (.store x) = .ok t) :
    (∀ r ≤ x, t.memory.read (Memory.place s.index.toNat r.toNat) = s.v r) ∧
      (∀ a : Address, (∀ i ≤ x.toNat, a.toNat ≠ (s.index.toNat + i) % 4096) →
        t.memory.read a = s.memory.read a) ∧
      t.index.toNat =
        if d.moveAdvancesIndex then (s.index.toNat + (x.toNat + 1)) % 4096 else s.index.toNat := by
  obtain ⟨u, hu, rfl⟩ := perform_store_eq_ok_iff.1 h
  have hx := x.isLt
  have hlength := length_take_registers (s := s) x
  obtain ⟨hwritten, hkept⟩ := read_of_store (by omega) hu
  obtain ⟨-, rfl⟩ := store_eq_ok_iff.1 hu
  refine ⟨fun r hr => ?_, fun a ha => ?_, toNat_index_afterMove d _ x⟩
  · have hlt := Nat.lt_succ_of_le (BitVec.le_def.1 hr)
    rw [afterMove_eq]
    exact (hwritten r.toNat (by omega)).trans (getElem_take_registers _)
  · rw [afterMove_eq]
    exact hkept a fun i hi => ha i (by omega)

/-! ### Loads -/

/-- Registers up to `x` come from the places from `I` on, the others stay. -/
theorem v_of_restore (h : s.perform d (.restore x) = .ok t) (r : Nibble) :
    t.v r = if r ≤ x then s.memory.read (Memory.place s.index.toNat r.toNat) else s.v r := by
  cases h
  rw [attempt, afterMove_eq]
  simp only [v, Registers.read, Vector.getElem_ofFn, BitVec.le_def]
  split <;> rfl

theorem toNat_index_of_restore (h : s.perform d (.restore x) = .ok t) :
    t.index.toNat =
      if d.moveAdvancesIndex then (s.index.toNat + (x.toNat + 1)) % 4096 else s.index.toNat := by
  cases h
  exact toNat_index_afterMove d _ x

/-- Without a fault before, a load never fails. -/
theorem restore_of_execute (hf : s.fault.code = 0) (address : Word) :
    s.perform d (.restore x) =
      .ok (s.execute d (Instruction.encode (.restore x)) address) := by
  have ho : s.outcome d (Instruction.encode (.restore x)) = .ok (s.attempt d (.restore x)) :=
    outcome_encode (by simp [Instruction.Shadowed])
  rw [execute_of_ok ho (not_raised_iff.2 hf)]
  rfl

/-! ### One after the other -/

/-- A load from where a store went to gives back the registers stored. -/
theorem v_of_store_of_restore (h : s.perform d (.store x) = .ok t) (hm : u.memory = t.memory)
    (hi : u.index = s.index) (hw : u.perform d (.restore x) = .ok w) (r : Nibble) :
    w.v r = if r ≤ x then s.v r else u.v r := by
  rw [v_of_restore hw, hm, hi]
  by_cases hr : r ≤ x
  · rw [if_pos hr, if_pos hr, (store_of_perform h).1 r hr]
  · rw [if_neg hr, if_neg hr]

/-- The digits of a byte, loaded from where they went to, are digits and add up to it. -/
theorem v_of_digits_of_restore (h : s.perform d (.digits x) = .ok t)
    (hw : t.perform d (.restore 2) = .ok w) :
    (w.v 0).toNat ≤ 9 ∧ (w.v 1).toNat ≤ 9 ∧ (w.v 2).toNat ≤ 9 ∧
      100 * (w.v 0).toNat + 10 * (w.v 1).toNat + (w.v 2).toNat = (s.v x).toNat := by
  have hindex : t.index = s.index := perform_kept (p := .index) h (by simp [Instruction.footprint])
  have hread := (read_of_store (by simp [decimalDigits]) h).1
  have hv (r : Nibble) (hr : r ≤ 2) :
      w.v r = t.memory.read (Memory.place s.index.toNat r.toNat) := by
    rw [v_of_restore hw, if_pos hr, hindex]
  have hhundreds : w.v 0 = BitVec.ofNat 8 ((s.v x).toNat / 100) :=
    (hv 0 (by decide)).trans (hread 0 (by simp [decimalDigits]))
  have htens : w.v 1 = BitVec.ofNat 8 ((s.v x).toNat / 10 % 10) :=
    (hv 1 (by decide)).trans (hread 1 (by simp [decimalDigits]))
  have hones : w.v 2 = BitVec.ofNat 8 ((s.v x).toNat % 10) :=
    (hv 2 (by decide)).trans (hread 2 (by simp [decimalDigits]))
  have := (s.v x).isLt
  rw [hhundreds, htens, hones]
  simp only [BitVec.toNat_ofNat]
  omega

/-- **What was stored is loaded again,** registers as they were and digits that add up to `VX`. A
store writes its places and no other byte, and a load never fails. -/
theorem restore_store (d : Dialect) (s : State) (x : Nibble) (hf : s.fault.code = 0) :
    let place (i : Nat) : Nat := (s.index.toNat + i) % 4096
    let after : Nat := if d.moveAdvancesIndex then place (x.toNat + 1) else s.index.toNat
    (∀ address,
      let t := s.execute d (Instruction.encode (.store x)) address
      t.fault.code = 0 →
        t.index.toNat = after ∧
        (∀ a : Address, (∀ i ≤ x.toNat, a.toNat ≠ place i) → t.memory.read a = s.memory.read a) ∧
        ∀ (v : Registers) (address : Word),
          let u := ({t with registers := v, index := s.index} : State).execute d
            (Instruction.encode (.restore x)) address
          u.fault.code = 0 ∧ u.index.toNat = after ∧
            ∀ r, u.v r = if r ≤ x then s.v r else v.read r) ∧
    (∀ address,
      let t := s.execute d (Instruction.encode (.digits x)) address
      t.fault.code = 0 →
        t.index = s.index ∧
        (∀ a : Address, (∀ i < 3, a.toNat ≠ place i) → t.memory.read a = s.memory.read a) ∧
        ∀ address,
          let u := t.execute d (Instruction.encode (.restore 2)) address
          u.fault.code = 0 ∧ (u.v 0).toNat ≤ 9 ∧ (u.v 1).toNat ≤ 9 ∧ (u.v 2).toNat ≤ 9 ∧
            100 * (u.v 0).toNat + 10 * (u.v 1).toNat + (u.v 2).toNat = (s.v x).toNat) ∧
    ∀ address,
      let u := s.execute d (Instruction.encode (.restore x)) address
      u.fault.code = 0 ∧ u.index.toNat = after ∧
        (∀ r ≤ x, ∀ a : Address, a.toNat = place r.toNat → u.v r = s.memory.read a) ∧
        ∀ r, x < r → u.v r = s.v r := by
  intro place after
  have hshadow : ¬ Instruction.Shadowed (.store x) ∧ ¬ Instruction.Shadowed (.digits x) := by
    simp [Instruction.Shadowed]
  refine ⟨fun address => ?_, fun address => ?_, fun address => ?_⟩
  · intro t ht
    have hstore : s.perform d (.store x) = .ok t := perform_of_execute hshadow.1 ht
    obtain ⟨-, hkept, hindex⟩ := store_of_perform hstore
    refine ⟨hindex, hkept, fun v address => ?_⟩
    intro w
    let u : State := {t with registers := v, index := s.index}
    have hw : u.perform d (.restore x) = .ok w := restore_of_execute (s := u) ht address
    exact ⟨by rw [fault_of_perform hw]; exact ht, toNat_index_of_restore (s := u) hw,
      v_of_store_of_restore (u := u) hstore rfl rfl hw⟩
  · intro t ht
    have hdigits : s.perform d (.digits x) = .ok t := perform_of_execute hshadow.2 ht
    refine ⟨perform_kept (p := .index) hdigits (by simp [Instruction.footprint]),
      (read_of_store (by simp [decimalDigits]) hdigits).2, fun address => ?_⟩
    have hu := restore_of_execute (d := d) (x := 2) ht address
    exact ⟨by rw [fault_of_perform hu]; exact ht, v_of_digits_of_restore hdigits hu⟩
  · intro u
    have hu : s.perform d (.restore x) = .ok u := restore_of_execute hf address
    refine ⟨by rw [fault_of_perform hu]; exact hf, toNat_index_of_restore hu,
      fun r hr a ha => ?_, fun r hr => ?_⟩
    · obtain rfl : a = Memory.place s.index.toNat r.toNat :=
        BitVec.eq_of_toNat_eq (ha.trans (toNat_place_nat _ _).symm)
      rw [v_of_restore hu, if_pos hr]
    · rw [v_of_restore hu, if_neg (BitVec.not_le.2 hr)]

/-- Two registers, and then three digits, in the last bytes of memory. `I` counts past them and is
wrapped. -/
theorem restore_store_last_bytes :
    let s : State := {fresh ⟨0, 0⟩ with
      index := 0x1FFD, registers := (Registers.zero.write 0x0 7).write 0x1 234}
    let t := s.execute .legacy 0xF155 0x200
    let u := ({t with registers := Registers.zero, index := 0x1FFD} : State).execute .legacy
      0xF165 0x202
    let w := s.execute .legacy 0xF133 0x200
    let z := w.execute .legacy 0xF265 0x202
    s.fault.code = 0 ∧ (t.fault.code = 0 ∧ t.index.toNat = 0xFFF ∧ u.v 0x0 = 7 ∧ u.v 0x1 = 234 ∧
        u.v 0x2 = 0 ∧ t.memory.read 0x000 = s.memory.read 0x000) ∧
      w.fault.code = 0 ∧ (z.v 0x1).toNat ≤ 9 ∧
        100 * (z.v 0x0).toNat + 10 * (z.v 0x1).toNat + (z.v 0x2).toNat = 234 := by
  intro s t u w z
  have hf : s.fault.code = 0 := rfl
  have ht : t.fault.code = 0 := by decide +kernel
  have hw : w.fault.code = 0 := by decide +kernel
  obtain ⟨hstore, hdigits, -⟩ := restore_store .legacy s 0x1 hf
  obtain ⟨hindex, hkept, hrestore⟩ := hstore 0x200 ht
  obtain ⟨-, -, hv⟩ := hrestore Registers.zero 0x202
  obtain ⟨-, -, hloaded⟩ := hdigits 0x200 hw
  obtain ⟨-, -, htens, -, hsum⟩ := hloaded 0x202
  exact ⟨hf, ⟨ht, hindex.trans (by decide), hv 0x0, hv 0x1, hv 0x2, hkept 0x000 (by decide)⟩, hw,
    htens, hsum⟩

end Chip8.State
