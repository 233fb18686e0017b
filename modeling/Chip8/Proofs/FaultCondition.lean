import Chip8.Proofs.Atomicity
import Chip8.Proofs.Opcode
import Chip8.Proofs.Transfer

/-!
When a step fails.

`fault?` is the fault an instruction meets, computed from the dialect, the stack pointer and the
index alone, and `perform_eq_error_iff` says that nothing else fails. `Meets` is the same in terms
of the word under the counter, without decoding: no fault but for a word that spells no instruction,
a call of machine code the dialect does not skip, a call on a full stack, a return on an empty one,
and a write with a place in the area of the machine. The main result `step_fault_iff` is that a step
records exactly these, each with its number, its value and the address of the instruction.
-/
namespace Chip8.State
variable {d : Dialect} {s t : State} {i : Instruction} {f : Fault} {w : Word}

/-! ### The fault of an instruction -/

/-- The fault that an instruction meets in a state. -/
def fault? (d : Dialect) (s : State) : Instruction → Option Fault
  | .machineCode a => if d.skipsMachineCode then none else some (.invalidOpcode (a.setWidth 16))
  | .ret => if s.stack.pointer ≤ 0 then some .stackUnderflow else none
  | .call _ => if stackDepth ≤ s.stack.pointer then some .stackOverflow else none
  | .digits _ => (Memory.firstProtected? s.index.toNat 3).map .protectedWrite
  | .store x => (Memory.firstProtected? s.index.toNat (x.toNat + 1)).map .protectedWrite
  | _ => none

/-- A write by a program fails at its first protected place. -/
theorem store_eq_error_iff {values : List Byte} :
    s.store values = .error f ↔
      (Memory.firstProtected? s.index.toNat values.length).map .protectedWrite = some f := by
  rw [store]
  split
  · next a ha => simp [ha]
  · next ha => simp [ha]

theorem length_take_registers (x : Nibble) :
    (s.registers.toList.take (x.toNat + 1)).length = x.toNat + 1 := by
  have := x.isLt
  rw [List.length_take, Vector.length_toList]
  omega

theorem perform_eq_error_iff : s.perform d i = .error f ↔ s.fault? d i = some f := by
  cases i with
  | machineCode a =>
    simp only [perform, fault?]
    split <;> simp
  | ret =>
    simp only [perform, fault?, Stack.pop, decide_eq_true_eq]
    split <;> simp
  | call a =>
    simp only [perform, fault?, Stack.push, decide_eq_true_eq]
    split <;> simp
  | digits x => exact store_eq_error_iff
  | store x =>
    have hlen := length_take_registers (s := s) x
    simp only [fault?]
    rw [← hlen, ← store_eq_error_iff, perform]
    cases s.store (s.registers.toList.take (x.toNat + 1)) <;> simp [Except.map]
  | _ => simp [perform, fault?]

/-! ### The fault of a word -/

/-- Place `i` of a transfer from `start` is the first one in the area of the machine. -/
def FirstProtected (start i : Nat) : Prop :=
  (start + i) % memorySize < programStart ∧
    ∀ j < i, programStart ≤ (start + j) % memorySize

/-- The fault that a word meets in a state. -/
inductive Meets (d : Dialect) (s : State) (w : Word) : Fault → Prop where
  | data (hw : ∀ i, Instruction.encode i ≠ w) : Meets d s w (.invalidOpcode w)
  | machineCode (a : Address) (hw : Instruction.encode (.machineCode a) = w) (hc : w ≠ 0x00E0)
      (hr : w ≠ 0x00EE) (hd : d.skipsMachineCode = false) : Meets d s w (.invalidOpcode w)
  | overflow (a : Address) (hw : Instruction.encode (.call a) = w) (hs : s.stack.pointer = 16) :
      Meets d s w .stackOverflow
  | underflow (hw : Instruction.encode .ret = w) (hs : s.stack.pointer = 0) :
      Meets d s w .stackUnderflow
  | digits (x : Nibble) (hw : Instruction.encode (.digits x) = w) (i : Nat) (hi : i < 3)
      (hp : FirstProtected s.index.toNat i) :
      Meets d s w (.protectedWrite (BitVec.ofNat 12 (s.index.toNat + i)))
  | store (x : Nibble) (hw : Instruction.encode (.store x) = w) (i : Nat) (hi : i ≤ x.toNat)
      (hp : FirstProtected s.index.toNat i) :
      Meets d s w (.protectedWrite (BitVec.ofNat 12 (s.index.toNat + i)))

theorem toNat_place_nat (start i : Nat) :
    (Memory.place start i).toNat = (start + i) % memorySize := by
  have := Memory.toNat_place start i
  rw [memorySize]
  omega

theorem place_eq_ofNat (start i : Nat) : Memory.place start i = BitVec.ofNat 12 (start + i) := by
  apply BitVec.eq_of_toNat_eq
  rw [toNat_place_nat, BitVec.toNat_ofNat]
  rfl

theorem firstProtected?_eq_some {start count : Nat} {a : Address} :
    Memory.firstProtected? start count = some a ↔
      ∃ i < count, FirstProtected start i ∧ a = BitVec.ofNat 12 (start + i) := by
  rw [Memory.firstProtected?_eq_some_iff]
  simp only [toNat_place_nat, FirstProtected, ← place_eq_ofNat]
  constructor
  · rintro ⟨i, hi, rfl, ha, hj⟩
    rw [toNat_place_nat] at ha
    exact ⟨i, hi, ⟨ha, hj⟩, rfl⟩
  · rintro ⟨i, hi, ⟨ha, hj⟩, rfl⟩
    exact ⟨i, hi, rfl, by rw [toNat_place_nat]; exact ha, hj⟩

/-- The word of an instruction is executed as that instruction. -/
theorem outcome_encode (hi : ¬ Instruction.Shadowed i) :
    s.outcome d (Instruction.encode i) = s.perform d i :=
  outcome_of_decode (Instruction.decode_encode hi)

/-- A step on the word of an instruction is the effect of that instruction. -/
theorem step_of_encode (hr : s.fault.raised = false) (hk : s.waiting = false)
    (hw : s.wordAt s.pc = Instruction.encode i) (hi : ¬ Instruction.Shadowed i)
    (h : s.fetch.1.perform d i = .ok t) : s.step d = t := by
  apply step_of_outcome hr hk
  show s.fetch.1.outcome d (s.wordAt s.pc) = .ok t
  rw [hw, outcome_encode hi, h]

theorem encode_machineCode (a : Address) : Instruction.encode (.machineCode a) = a.setWidth 16 := by
  apply BitVec.eq_of_toNat_eq
  have := a.isLt
  rw [Instruction.encode, Instruction.toNat_withAddress, BitVec.toNat_setWidth]
  simp only [BitVec.ofNat_eq_ofNat, BitVec.toNat_ofNat]
  omega

/-- Every fault of an instruction is one that its word meets. -/
theorem meets_of_fault? (hsp : 0 ≤ s.stack.pointer ∧ s.stack.pointer ≤ 16)
    (hi : Instruction.decode w = some i) (hf : s.fault? d i = some f) : Meets d s w f := by
  obtain ⟨hw, hshadow⟩ := Instruction.decode_eq_some_iff.1 hi
  cases i with
  | machineCode a =>
    simp only [fault?] at hf
    split at hf
    · cases hf
    · next hd =>
      cases hf
      rw [← encode_machineCode, hw]
      refine .machineCode a hw ?_ ?_ (by simpa using hd)
      · intro hc
        rw [hc] at hi
        cases hi
      · intro hr
        rw [hr] at hi
        cases hi
  | ret =>
    simp only [fault?] at hf
    split at hf
    · cases hf
      exact .underflow hw (by omega)
    · cases hf
  | call a =>
    simp only [fault?] at hf
    split at hf
    · next hfull =>
      cases hf
      simp only [stackDepth] at hfull
      exact .overflow a hw (by omega)
    · cases hf
  | digits x =>
    obtain ⟨a, ha, rfl⟩ := Option.map_eq_some_iff.1 hf
    obtain ⟨k, hk, hp, rfl⟩ := firstProtected?_eq_some.1 ha
    exact .digits x hw k hk hp
  | store x =>
    obtain ⟨a, ha, rfl⟩ := Option.map_eq_some_iff.1 hf
    obtain ⟨k, hk, hp, rfl⟩ := firstProtected?_eq_some.1 ha
    exact .store x hw k (by omega) hp
  | _ => cases hf

theorem not_shadowed_of_ne {a : Address} (hw : Instruction.encode (.machineCode a) = w)
    (hc : w ≠ 0x00E0) (hr : w ≠ 0x00EE) : ¬ Instruction.Shadowed (.machineCode a) := by
  intro h
  rcases h with h | h <;> cases h
  · exact hc hw.symm
  · exact hr hw.symm

/-- A word that meets a fault has no effect. -/
theorem outcome_of_meets (h : Meets d s w f) : s.outcome d w = .error f := by
  cases h with
  | data hw => exact outcome_of_data (Instruction.decode_eq_none_iff.2 hw)
  | machineCode a hw hc hr hd =>
    have hi := not_shadowed_of_ne hw hc hr
    rw [← hw, outcome_encode hi, perform_eq_error_iff, encode_machineCode]
    simp [fault?, hd]
  | overflow a hw hs =>
    rw [← hw, outcome_encode (by simp [Instruction.Shadowed]), perform_eq_error_iff]
    simp [fault?, hs, stackDepth]
  | underflow hw hs =>
    rw [← hw, outcome_encode (by simp [Instruction.Shadowed]), perform_eq_error_iff]
    simp [fault?, hs]
  | digits x hw k hk hp =>
    rw [← hw, outcome_encode (by simp [Instruction.Shadowed]), perform_eq_error_iff]
    simp only [fault?]
    rw [firstProtected?_eq_some.2 ⟨k, hk, hp, rfl⟩]
    rfl
  | store x hw k hk hp =>
    rw [← hw, outcome_encode (by simp [Instruction.Shadowed]), perform_eq_error_iff]
    simp only [fault?]
    rw [firstProtected?_eq_some.2 ⟨k, by omega, hp, rfl⟩]
    rfl

theorem outcome_eq_error_iff (hsp : 0 ≤ s.stack.pointer ∧ s.stack.pointer ≤ 16) :
    s.outcome d w = .error f ↔ Meets d s w f := by
  refine ⟨fun h => ?_, outcome_of_meets⟩
  cases hd : Instruction.decode w with
  | none =>
    rw [outcome_of_data hd] at h
    cases h
    exact .data (Instruction.decode_eq_none_iff.1 hd)
  | some i =>
    rw [outcome_of_decode hd] at h
    exact meets_of_fault? hsp hd (perform_eq_error_iff.1 h)

/-- The fault of a word depends on the stack pointer and the index alone. -/
theorem Meets.congr (h : Meets d s w f) (hs : t.stack.pointer = s.stack.pointer)
    (hi : t.index = s.index) : Meets d t w f := by
  cases h with
  | data hw => exact .data hw
  | machineCode a hw hc hr hd => exact .machineCode a hw hc hr hd
  | overflow a hw hp => exact .overflow a hw (hs.trans hp)
  | underflow hw hp => exact .underflow hw (hs.trans hp)
  | digits x hw k hk hp =>
    rw [← hi] at hp ⊢
    exact .digits x hw k hk hp
  | store x hw k hk hp =>
    rw [← hi] at hp ⊢
    exact .store x hw k hk hp

/-! ### The fault of a step -/

theorem readWord_of_lt {m : Memory} {a : Word} (h : a.toNat < 4096) :
    m.readWord a = m.read (Memory.place a.toNat 0) := by
  have ha : BitVec.setWidth 12 a = Memory.place a.toNat 0 := by
    apply BitVec.eq_of_toNat_eq
    rw [toNat_place_nat, BitVec.toNat_setWidth]
    rfl
  rw [Memory.readWord, if_pos h, ha]

/-- The word under the counter, its second byte wrapping at the end of memory. -/
theorem wordAt_of_lt {a : Word} (h : a.toNat < 4096) :
    s.wordAt a =
      Word.ofBytes (s.memory.read (Memory.place a.toNat 0))
        (s.memory.read (Memory.place a.toNat 1)) := by
  have hnext : (a + 1).wrap.toNat = (a.toNat + 1) % 4096 := Word.toNat_wrap_add a 1
  have hplace : Memory.place (a + 1).wrap.toNat 0 = Memory.place a.toNat 1 := by
    apply BitVec.eq_of_toNat_eq
    rw [toNat_place_nat, toNat_place_nat, hnext, memorySize]
    omega
  rw [wordAt, readWord_of_lt h, readWord_of_lt (by omega), hplace]

/-- The number and the value of a fault tell it from all others. -/
theorem eq_of_code_of_value {f g : Fault} (hc : f.code = g.code) (hv : f.value = g.value) :
    f = g := by
  cases f <;> cases g <;> simp_all [Fault.code, Fault.value]
  all_goals exact BitVec.eq_of_toNat_eq (by omega)

/-- **A step fails exactly as its word says,** with the number and the value of the fault that the
word meets and the counter, of which the host's error is made. -/
theorem step_fault_iff (d : Dialect) (s : State) (hf : s.fault.code = 0) (hk : s.waiting = false)
    (hpc : s.pc.toNat ≤ 0xFFF) (hsp : 0 ≤ s.stack.pointer ∧ s.stack.pointer ≤ 16) :
    let w := Word.ofBytes (s.memory.read (Memory.place s.pc.toNat 0))
      (s.memory.read (Memory.place s.pc.toNat 1))
    (∀ f, Meets d s w f ↔ (s.step d).fault = ⟨f.code, s.pc, f.value⟩) ∧
      ((s.step d).fault.code ≠ 0 ↔ ∃ f, Meets d s w f) ∧
      ∀ f, Meets d s w f → (s.step d).diagnosis = .ok (some (Error.ofFault s.pc f)) := by
  intro w
  have hr : s.fault.raised = false := not_raised_iff.2 hf
  have hw : s.wordAt s.pc = w := wordAt_of_lt (by omega)
  have hmeets : ∀ f, Meets d s w f → (s.step d).fault = ⟨f.code, s.pc, f.value⟩ := by
    intro f h
    have ho : s.fetch.1.outcome d (s.wordAt s.pc) = .error f := by
      rw [hw]
      exact outcome_of_meets (h.congr rfl rfl)
    rw [step_of_fault hr hk ho, FaultRecord.of, Word.wrap_of_lt (by omega)]
  have hraised : (s.step d).fault.code ≠ 0 → ∃ f, Meets d s w f := by
    intro h
    rcases step_cases d s with ⟨hr', -⟩ | ⟨-, hk', -⟩ | ⟨-, -, f, ho, -⟩ | ⟨-, -, ho⟩
    · rw [hr] at hr'
      cases hr'
    · rw [hk] at hk'
      cases hk'
    · rw [hw, outcome_eq_error_iff (s := s.fetch.1) hsp] at ho
      exact ⟨f, ho.congr rfl rfl⟩
    · rw [fault_of_outcome ho] at h
      exact absurd hf h
  refine ⟨fun f => ⟨hmeets f, fun h => ?_⟩, ⟨hraised, ?_⟩, ?_⟩
  · obtain ⟨g, hg⟩ := hraised (by rw [h]; exact f.code_ne_zero)
    have hboth := (hmeets g hg).symm.trans h
    rw [← eq_of_code_of_value (congrArg FaultRecord.code hboth) (congrArg FaultRecord.value hboth)]
    exact hg
  · intro h
    obtain ⟨f, hf'⟩ := h
    rw [hmeets f hf']
    exact f.code_ne_zero
  · intro f h
    rw [diagnosis, hmeets f h]
    exact Error.ofRecord_code f s.pc

/-- `F155` at the last address of memory fails at address zero, to which its second place wraps. -/
theorem step_fault_iff_store :
    let s : State := {fresh ⟨0, 0⟩ with
      memory := Memory.fresh.load programStart [0xF1, 0x55]
      index := 0xFFF}
    (s.fault.code = 0 ∧ s.waiting = false ∧ s.pc.toNat ≤ 0xFFF ∧ s.stack.pointer = 0) ∧
      Meets .modern s 0xF155 (.protectedWrite 0) ∧ (s.step .modern).fault = ⟨4, 0x200, 0⟩ ∧
      (s.step .modern).diagnosis = .ok (some (.memoryOutOfRange 0)) := by
  intro s
  have hword : Word.ofBytes (s.memory.read (Memory.place s.pc.toNat 0))
      (s.memory.read (Memory.place s.pc.toNat 1)) = 0xF155 := by decide +kernel
  have hmeets : Meets .modern s 0xF155 (.protectedWrite (BitVec.ofNat 12 (s.index.toNat + 1))) :=
    .store 1 (by decide) 1 (by decide) ⟨by decide, by decide⟩
  have hplace : BitVec.ofNat 12 (s.index.toNat + 1) = 0 := by decide
  rw [hplace] at hmeets
  obtain ⟨hrecord, -, hdiagnosis⟩ :=
    step_fault_iff .modern s (by decide) rfl (by decide) (by decide)
  rw [hword] at hrecord hdiagnosis
  exact ⟨by decide, hmeets, (hrecord _).1 hmeets, hdiagnosis _ hmeets⟩

end Chip8.State
