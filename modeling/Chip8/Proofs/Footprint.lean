import Chip8.Proofs.Effect

/-!
What an instruction leaves alone.

A state has parts (`Part`), and the footprint of an instruction is the list of parts it may write.
`perform_kept` is the frame: an instruction that has an effect keeps every part outside its
footprint. The keypad and the fault record are in no footprint: the one belongs to the host, and
the other is written only where an instruction fails.
-/
namespace Chip8

/-- A part of a state, as instructions see it. -/
inductive Part where
  | memory
  | counter
  | index
  | register (r : Nibble)
  | stack
  | delayTimer
  | soundTimer
  | keypad
  /-- The screen, and whether it was drawn on. -/
  | screen
  /-- Whether an instruction waits, for which register, and what it last saw. -/
  | wait
  | fault
  | random
  deriving DecidableEq, Repr

/-- A part is the same in two states. -/
def Part.Kept (s t : State) : Part → Prop
  | .memory => t.memory = s.memory
  | .counter => t.pc = s.pc
  | .index => t.index = s.index
  | .register r => t.v r = s.v r
  | .stack => t.stack = s.stack
  | .delayTimer => t.delayTimer = s.delayTimer
  | .soundTimer => t.soundTimer = s.soundTimer
  | .keypad => t.keypad = s.keypad
  | .screen => t.screen = s.screen ∧ t.drawn = s.drawn
  | .wait => t.waiting = s.waiting ∧ t.keyTarget = s.keyTarget ∧ t.keysSeen = s.keysSeen
  | .fault => t.fault = s.fault
  | .random => t.random = s.random

/-- The registers that an operation writes: its target, and the flag register if it leaves a
flag. -/
def Alu.registers (d : Dialect) (op : Alu) (x : Nibble) : List Part :=
  match op with
  | .copy => [.register x]
  | .or | .and | .xor =>
    if d.logicClearsFlag then [.register x, .register flagRegister] else [.register x]
  | .add | .sub | .shiftRight | .subFrom | .shiftLeft => [.register x, .register flagRegister]

/-- The parts of a state that an instruction may write. -/
def Instruction.footprint (d : Dialect) : Instruction → List Part
  | .machineCode _ => []
  | .clear => [.screen]
  | .ret | .call _ => [.stack, .counter]
  | .jump _ | .skip _ | .jumpOffset _ => [.counter]
  | .load x _ | .add x _ | .readDelay x => [.register x]
  | .alu op x _ => op.registers d x
  | .setIndex _ | .addIndex _ | .glyph _ => [.index]
  | .random x _ => [.register x, .random]
  | .draw _ _ _ => [.screen, .register flagRegister]
  | .waitKey _ => [.counter, .wait]
  | .setDelay _ => [.delayTimer]
  | .setSound _ => [.soundTimer]
  | .digits _ => [.memory]
  | .store _ => if d.moveAdvancesIndex then [.memory, .index] else [.memory]
  | .restore x =>
    let loaded := (List.range (x.toNat + 1)).map fun r => .register (BitVec.ofNat 4 r)
    if d.moveAdvancesIndex then .index :: loaded else loaded

theorem Alu.exists_register_of_mem {d : Dialect} {op : Alu} {x : Nibble} {p : Part}
    (hp : p ∈ op.registers d x) : ∃ r, p = .register r := by
  cases op <;> cases hd : d.logicClearsFlag <;> simp [registers, hd] at hp <;> grind

/-- The instructions that write a part. Registers are written by many. -/
def Part.WrittenBy (i : Instruction) : Part → Prop
  | .memory => (∃ x, i = .digits x) ∨ ∃ x, i = .store x
  | .counter =>
    i = .ret ∨ (∃ a, i = .call a) ∨ (∃ a, i = .jump a) ∨ (∃ c, i = .skip c) ∨
      (∃ a, i = .jumpOffset a) ∨ ∃ x, i = .waitKey x
  | .index =>
    (∃ a, i = .setIndex a) ∨ (∃ x, i = .addIndex x) ∨ (∃ x, i = .glyph x) ∨ (∃ x, i = .store x) ∨
      ∃ x, i = .restore x
  | .register _ => True
  | .stack => i = .ret ∨ ∃ a, i = .call a
  | .delayTimer => ∃ x, i = .setDelay x
  | .soundTimer => ∃ x, i = .setSound x
  | .screen => i = .clear ∨ ∃ x y n, i = .draw x y n
  | .wait => ∃ x, i = .waitKey x
  | .random => ∃ x n, i = .random x n
  | .keypad | .fault => False

/-- A part in the footprint of an instruction is written by it. -/
theorem Instruction.writtenBy_of_mem {d : Dialect} {i : Instruction} {p : Part}
    (hp : p ∈ i.footprint d) : p.WrittenBy i := by
  cases i with
  | alu op x y =>
    obtain ⟨r, rfl⟩ := Alu.exists_register_of_mem hp
    trivial
  | store x =>
    cases hd : d.moveAdvancesIndex <;> cases p <;> simp_all [footprint, Part.WrittenBy]
  | restore x =>
    cases hd : d.moveAdvancesIndex <;> cases p <;> simp_all [footprint, Part.WrittenBy]
  | _ => cases p <;> simp_all [footprint, Part.WrittenBy]

namespace State
variable {d : Dialect} {s t : State} {i : Instruction} {p : Part}

/-! ### The pieces of `perform` -/

theorem skipIf_eq (s : State) (b : Bool) :
    s.skipIf b = {s with pc := if b then (s.pc + 2).wrap else s.pc} := by
  cases b <;> rfl

theorem afterMove_eq (d : Dialect) (s : State) (x : Nibble) :
    s.afterMove d x = {s with index := (s.afterMove d x).index} := by
  rw [afterMove]
  split <;> rfl

theorem operate_eq (d : Dialect) (s : State) (op : Alu) (x y : Nibble) :
    s.operate d op x y = {s with registers := (s.operate d op x y).registers} := by
  simp only [operate]
  split <;> rfl

/-- A write by a program goes through exactly if no place of it is protected. -/
theorem store_eq_ok_iff {values : List Byte} :
    s.store values = .ok t ↔
      Memory.firstProtected? s.index.toNat values.length = none ∧
        t = {s with memory := s.memory.transfer s.index.toNat values values.length} := by
  rw [store]
  split
  · next a ha => simp [ha]
  · next ha => simp [ha, eq_comm]

theorem perform_store_eq_ok_iff {x : Nibble} :
    s.perform d (.store x) = .ok t ↔
      ∃ u, s.store (s.registers.toList.take (x.toNat + 1)) = .ok u ∧ t = u.afterMove d x := by
  rw [perform]
  cases s.store (s.registers.toList.take (x.toNat + 1)) with
  | error f => simp [Except.map]
  | ok u => simp [Except.map, eq_comm]

/-! ### The registers -/

theorem v_setV (s : State) (x r : Nibble) (b : Byte) :
    (s.setV x b).v r = if x = r then b else s.v r := by
  simp only [v, setV, Registers.read_write]

theorem v_setV_of_ne {x r : Nibble} (h : r ≠ x) (b : Byte) : (s.setV x b).v r = s.v r := by
  rw [v_setV, if_neg (Ne.symm h)]

theorem v_operate_of_ne {op : Alu} {x y r : Nibble} (h : .register r ∉ op.registers d x) :
    (s.operate d op x y).v r = s.v r := by
  have hx : r ≠ x := by
    rintro rfl
    apply h
    cases op <;> cases hd : d.logicClearsFlag <;> simp [Alu.registers, hd]
  simp only [operate]
  split
  · exact v_setV_of_ne hx _
  · next f hf =>
    have hflag : r ≠ flagRegister := by
      rintro rfl
      apply h
      cases op <;> cases hd : d.logicClearsFlag <;>
        simp_all [Alu.registers, Alu.isLogic, Alu.flag?]
    rw [v_setV_of_ne hflag, v_setV_of_ne hx]

theorem lt_of_not_mem_restore {x r : Nibble}
    (h : .register r ∉ (Instruction.restore x).footprint d) : x.toNat < r.toNat := by
  rw [← Nat.not_le]
  intro hr
  have hloaded : Part.register r ∈
      (List.range (x.toNat + 1)).map fun k => .register (BitVec.ofNat 4 k) :=
    List.mem_map.2
      ⟨r.toNat, List.mem_range.2 (by omega), by rw [BitVec.ofNat_toNat, BitVec.setWidth_eq]⟩
  apply h
  simp only [Instruction.footprint]
  split
  · exact List.mem_cons_of_mem _ hloaded
  · exact hloaded

theorem v_restore_of_lt {x r : Nibble} (h : x.toNat < r.toNat) (loaded : Fin 16 → Byte) :
    ({s with registers := Vector.ofFn fun k =>
      if k ≤ x.toNat then loaded k else s.registers.get k}.afterMove d x).v r = s.v r := by
  rw [afterMove_eq]
  simp only [v, Registers.read, Vector.getElem_ofFn]
  rw [if_neg (by omega)]
  rfl

/-! ### The frame of `perform` -/

theorem perform_kept (h : s.perform d i = .ok t) (hp : p ∉ i.footprint d) : p.Kept s t := by
  cases i with
  | machineCode a =>
    simp only [perform] at h
    split at h
    · cases h
      cases p <;> simp only [Part.Kept, and_self]
    · cases h
  | ret | call a =>
    simp only [perform] at h
    split at h
    · cases h
    · cases h
      cases p <;> simp_all [Part.Kept, Instruction.footprint, v]
  | skip c =>
    cases h
    rw [attempt, skipIf_eq]
    cases p <;> simp_all [Part.Kept, Instruction.footprint, v]
  | alu op x y =>
    cases h
    cases p
    case register r => exact v_operate_of_ne hp
    all_goals
      rw [attempt, operate_eq]
      simp only [Part.Kept, and_self]
  | load x n | add x n | readDelay x =>
    cases h
    cases p
    case register r => exact v_setV_of_ne (by simpa [Instruction.footprint] using hp) _
    all_goals simp only [Part.Kept, attempt, setV, and_self]
  | random x n =>
    cases h
    cases p
    case register r => exact v_setV_of_ne (s := s) (by simpa [Instruction.footprint] using hp) _
    all_goals simp_all [Part.Kept, Instruction.footprint, attempt, setV]
  | draw x y n =>
    cases h
    cases p
    case register r =>
      exact v_setV_of_ne (s := s) (by simpa [Instruction.footprint] using hp) _
    all_goals simp_all [Part.Kept, Instruction.footprint, attempt, draw]
  | digits x =>
    obtain ⟨-, rfl⟩ := store_eq_ok_iff.1 h
    cases p <;> simp_all [Part.Kept, Instruction.footprint, v]
  | store x =>
    obtain ⟨u, hu, rfl⟩ := perform_store_eq_ok_iff.1 h
    obtain ⟨-, rfl⟩ := store_eq_ok_iff.1 hu
    rw [afterMove]
    cases p <;> cases hd : d.moveAdvancesIndex <;>
      simp_all [Part.Kept, Instruction.footprint, v]
  | restore x =>
    cases h
    cases p
    case register r => exact v_restore_of_lt (lt_of_not_mem_restore hp) _
    all_goals
      rw [attempt, afterMove]
      cases hd : d.moveAdvancesIndex <;> simp_all [Part.Kept, Instruction.footprint]
  | _ =>
    cases h
    cases p <;> simp_all [Part.Kept, Instruction.footprint, attempt, v]

end State
end Chip8
