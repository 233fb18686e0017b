import Chip8.Proofs.FaultCondition
import Chip8.Proofs.Opcode
import Chip8.Proofs.Transfer

/-!
What a word may write.

`Word.writes` says it by the fields of a word, part by part of a state, and the parts are all there
is to a state (`Part.eq_of_kept`). It has every part in the footprint of the instruction that the
word spells (`writes_encode`). The main result `writes_bound` is that a word which does not fail
leaves all other parts alone, tells that the screen was drawn on if it may write it, and of memory
changes bytes only at the places of its transfer.
-/
namespace Chip8

/-- Two states that are the same in every part are the same. -/
theorem Part.eq_of_kept {s t : State} (h : ∀ p : Part, p.Kept s t) : t = s := by
  have hregisters : t.registers = s.registers := by
    apply Vector.ext
    intro k hk
    have hr : t.v (BitVec.ofNat 4 k) = s.v (BitVec.ofNat 4 k) := h (.register (BitVec.ofNat 4 k))
    simpa [State.v, Registers.read, Nat.mod_eq_of_lt hk] using hr
  obtain ⟨hscreen, hdrawn⟩ := h .screen
  obtain ⟨hwaiting, htarget, hseen⟩ := h .wait
  have hmemory : t.memory = s.memory := h .memory
  have hpc : t.pc = s.pc := h .counter
  have hindex : t.index = s.index := h .index
  have hstack : t.stack = s.stack := h .stack
  have hdelay : t.delayTimer = s.delayTimer := h .delayTimer
  have hsound : t.soundTimer = s.soundTimer := h .soundTimer
  have hkeypad : t.keypad = s.keypad := h .keypad
  have hfault : t.fault = s.fault := h .fault
  have hrandom : t.random = s.random := h .random
  cases s
  cases t
  simp_all

namespace Word

/-- Whether a word skips the next one on a condition. -/
def isSkip (w : Word) : Bool :=
  w.family = 0x3 || w.family = 0x4 || (w.family = 0x5 || w.family = 0x9) && w.n = 0x0 ||
    w.family = 0xE && (w.nn = 0x9E || w.nn = 0xA1)

/-- Whether a word writes the register in its second nibble. -/
def writesTarget (w : Word) : Bool :=
  w.family = 0x6 || w.family = 0x7 || w.family = 0xC || w.family = 0xF && w.nn = 0x07 ||
    w.family = 0x8 && w.n ∈ [0x0, 0x1, 0x2, 0x3, 0x4, 0x5, 0x6, 0x7, 0xE]

/-- Whether a word leaves a flag. -/
def writesFlag (d : Dialect) (w : Word) : Bool :=
  w.family = 0xD || w.family = 0x8 && w.n ∈ [0x4, 0x5, 0x6, 0x7, 0xE] ||
    w.family = 0x8 && w.n ∈ [0x1, 0x2, 0x3] && d.logicClearsFlag

/-- Whether a word may write a part of a state. -/
def writes (d : Dialect) (w : Word) : Part → Bool
  | .memory => w.family = 0xF && (w.nn = 0x33 || w.nn = 0x55)
  | .counter =>
    w = 0x00EE || w.family = 0x1 || w.family = 0x2 || w.family = 0xB || w.isSkip ||
      w.family = 0xF && w.nn = 0x0A
  | .index =>
    w.family = 0xA || w.family = 0xF && (w.nn = 0x1E || w.nn = 0x29) ||
      w.family = 0xF && (w.nn = 0x55 || w.nn = 0x65) && d.moveAdvancesIndex
  | .register r =>
    r = w.x && w.writesTarget || r = 0xF && w.writesFlag d ||
      r ≤ w.x && w.family = 0xF && w.nn = 0x65
  | .stack => w = 0x00EE || w.family = 0x2
  | .delayTimer => w.family = 0xF && w.nn = 0x15
  | .soundTimer => w.family = 0xF && w.nn = 0x18
  | .screen => w = 0x00E0 || w.family = 0xD
  | .wait => w.family = 0xF && w.nn = 0x0A
  | .random => w.family = 0xC
  | .keypad | .fault => false

end Word

variable {d : Dialect} {w : Word} {i : Instruction} {p : Part}

theorem mem_restore_footprint {x : Nibble} (hp : p ∈ (Instruction.restore x).footprint d) :
    p = .index ∧ d.moveAdvancesIndex = true ∨ ∃ r ≤ x, p = .register r := by
  have hloaded : p ∈ (List.range (x.toNat + 1)).map (fun k => Part.register (BitVec.ofNat 4 k)) →
      ∃ r ≤ x, p = .register r := by
    intro hmem
    obtain ⟨k, hk, rfl⟩ := List.mem_map.1 hmem
    rw [List.mem_range] at hk
    have := x.isLt
    refine ⟨_, ?_, rfl⟩
    rw [BitVec.le_def, BitVec.toNat_ofNat]
    omega
  simp only [Instruction.footprint] at hp
  split at hp
  · next hd =>
    rcases List.mem_cons.1 hp with rfl | hmem
    · exact .inl ⟨rfl, hd⟩
    · exact .inr (hloaded hmem)
  · exact .inr (hloaded hp)

/-- The word of an instruction may write every part in its footprint. -/
theorem writes_encode (hp : p ∈ i.footprint d) :
    (Instruction.encode i).writes d p = true := by
  cases i with
  | machineCode a => cases hp
  | clear | ret =>
    simp only [Instruction.footprint, List.mem_cons, List.not_mem_nil, or_false] at hp
    rcases hp with rfl | rfl <;> rfl
  | jump a | call a | setIndex a | jumpOffset a =>
    simp only [Instruction.footprint, List.mem_cons, List.not_mem_nil, or_false] at hp
    rcases hp with rfl | rfl <;>
      simp [Word.writes, Instruction.encode, Instruction.family_withAddress]
  | skip c =>
    simp only [Instruction.footprint, List.mem_cons, List.not_mem_nil, or_false] at hp
    subst hp
    cases c <;>
      simp [Word.writes, Word.isSkip, Instruction.encode, Instruction.fields_withByte,
        Instruction.fields_withPair]
  | alu op x y =>
    cases op <;> cases hd : d.logicClearsFlag <;>
      simp only [Instruction.footprint, Alu.registers, hd, if_true, Bool.false_eq_true, if_false,
        List.mem_cons, List.not_mem_nil, or_false] at hp <;>
      rcases hp with rfl | rfl <;>
      simp [Word.writes, Word.writesTarget, Word.writesFlag, Instruction.encode,
        Instruction.fields_withPair, Alu.code, flagRegister, hd]
  | store x =>
    simp only [Instruction.footprint] at hp
    split at hp <;> simp only [List.mem_cons, List.not_mem_nil, or_false] at hp
    · next hd =>
      rcases hp with rfl | rfl <;>
        simp [Word.writes, Instruction.encode, Instruction.fields_withByte, hd]
    · subst hp
      simp [Word.writes, Instruction.encode, Instruction.fields_withByte]
  | restore x =>
    rcases mem_restore_footprint hp with ⟨rfl, hd⟩ | ⟨r, hr, rfl⟩
    · simp [Word.writes, Instruction.encode, Instruction.fields_withByte, hd]
    · simp [Word.writes, Instruction.encode, Instruction.fields_withByte, hr]
  | _ =>
    simp only [Instruction.footprint, List.mem_cons, List.not_mem_nil, or_false] at hp
    rcases hp with rfl | rfl <;>
      simp [Word.writes, Word.writesTarget, Word.writesFlag, Instruction.encode,
        Instruction.fields_withByte, Instruction.fields_withPair, flagRegister]

/-! ### The bytes that a word writes -/

/-- A byte that a transfer changes is at one of its places. -/
theorem Memory.exists_place_of_transfer {m : Memory} {start : Int} {values : List Byte} {a : Address}
    (ha : (m.transfer start values values.length).read a ≠ m.read a) :
    ∃ k < values.length, a = Memory.place start k := by
  apply Classical.byContradiction
  intro hnone
  apply ha
  apply Memory.read_transfer_of_ne
  intro k hk _ hplace
  exact hnone ⟨k, hk, hplace.symm⟩

namespace State
variable {s t : State}

theorem exists_place_of_store {values : List Byte} {a : Address} (h : s.store values = .ok t)
    (ha : t.memory.read a ≠ s.memory.read a) :
    ∃ k < values.length, a = Memory.place s.index.toNat k := by
  obtain ⟨-, rfl⟩ := store_eq_ok_iff.1 h
  exact Memory.exists_place_of_transfer ha

/-- A byte that an instruction changes is at a place of the digits or of the registers it stores. -/
theorem exists_place_of_perform {a : Address} (h : s.perform d i = .ok t)
    (ha : t.memory.read a ≠ s.memory.read a) :
    ∃ k, a = Memory.place s.index.toNat k ∧
      ∃ x, i = .digits x ∧ k < 3 ∨ i = .store x ∧ k ≤ x.toNat := by
  have hmemory : Part.memory ∈ i.footprint d := by
    apply Decidable.byContradiction
    intro hp
    have hkept : t.memory = s.memory := perform_kept h hp
    exact ha (by rw [hkept])
  rcases Instruction.writtenBy_of_mem hmemory with ⟨x, rfl⟩ | ⟨x, rfl⟩
  · obtain ⟨k, hk, rfl⟩ := exists_place_of_store h ha
    exact ⟨k, rfl, x, .inl ⟨rfl, hk⟩⟩
  · obtain ⟨u, hu, rfl⟩ := perform_store_eq_ok_iff.1 h
    rw [afterMove_eq] at ha
    obtain ⟨k, hk, rfl⟩ := exists_place_of_store hu ha
    rw [length_take_registers] at hk
    exact ⟨k, rfl, x, .inr ⟨rfl, Nat.le_of_lt_succ hk⟩⟩

/-- A word that may write the screen clears it or draws on it, and tells so. -/
theorem drawn_of_outcome (h : s.outcome d w = .ok t) (hw : w.writes d .screen = true) :
    t.drawn = true := by
  obtain ⟨i, hi, hperform⟩ := outcome_eq_ok_iff.1 h
  simp only [Word.writes, Bool.or_eq_true, decide_eq_true_eq] at hw
  rcases hw with rfl | hfamily
  · obtain rfl : Instruction.clear = i := Option.some.inj hi
    cases hperform
    rfl
  · simp only [Instruction.decode, hfamily] at hi
    obtain rfl : Instruction.draw w.x w.y w.n = i := Option.some.inj hi
    cases hperform
    rfl

/-- **A word writes what its fields allow.** It keeps every part of the state that is not its own,
and a byte that it changes is one of those that `FX33` or `FX55` stores. -/
theorem writes_bound (d : Dialect) (s : State) (w address : Word)
    (hf : (s.execute d w address).fault.code = 0) :
    (∀ p, w.writes d p = false → p.Kept s (s.execute d w address)) ∧
    (w.writes d .screen = true → (s.execute d w address).drawn = true) ∧
    (∀ a, (s.execute d w address).memory.read a ≠ s.memory.read a →
      ∃ k, a.toNat = (s.index.toNat + k) % 4096 ∧ w.family = 0xF ∧
        (w.nn = 0x33 ∧ k < 3 ∨ w.nn = 0x55 ∧ k ≤ w.x.toNat)) ∧
    ((∀ p, w.writes d p = false) → s.execute d w address = s) := by
  obtain ⟨hraised, -⟩ | ⟨-, -, houtcome⟩ := execute_cases d s w address
  · exact absurd hf (raised_iff.1 hraised)
  obtain ⟨i, hi, hperform⟩ := outcome_eq_ok_iff.1 houtcome
  have hw := Instruction.encode_of_decode hi
  have hkept : ∀ p, w.writes d p = false → p.Kept s (s.execute d w address) := by
    intro p hp
    apply perform_kept hperform
    intro hmem
    rw [← hw, writes_encode hmem] at hp
    cases hp
  refine ⟨hkept, drawn_of_outcome houtcome, fun a ha => ?_,
    fun hnone => Part.eq_of_kept fun p => hkept p (hnone p)⟩
  obtain ⟨k, rfl, x, ⟨rfl, hk⟩ | ⟨rfl, hk⟩⟩ := exists_place_of_perform hperform ha
  all_goals
    refine ⟨k, toNat_place_nat s.index.toNat k, ?_⟩
    rw [← hw]
    simp [Instruction.encode, Instruction.fields_withByte, hk]

/-- Storing one register at the end of memory changes that byte, and the rest of the state stays. -/
theorem writes_bound_last_byte :
    let s : State := {fresh ⟨0, 0⟩ with index := 0x1FFF, registers := Registers.zero.write 0 7}
    let t := s.execute .modern 0xF055 0x200
    t.fault.code = 0 ∧ (∀ p : Part, p ≠ .memory → p.Kept s t) ∧ t.memory.read 0xFFF = 7 ∧
      ∀ a, a ≠ 0xFFF → t.memory.read a = s.memory.read a := by
  intro s t
  have hf : t.fault.code = 0 := by decide +kernel
  obtain ⟨hkept, -, hmemory, -⟩ := writes_bound .modern s 0xF055 0x200 hf
  refine ⟨hf, fun p hp => hkept p ?_, by decide +kernel, fun a ha => ?_⟩
  · cases p
    case memory => exact absurd rfl hp
    case register r => revert r; decide
    all_goals rfl
  · apply Decidable.byContradiction
    intro hread
    obtain ⟨k, hk, -, ⟨hdigits, -⟩ | ⟨-, hzero⟩⟩ := hmemory a hread
    · revert hdigits
      decide
    · obtain rfl : k = 0 := Nat.le_zero.1 hzero
      exact ha (BitVec.eq_of_toNat_eq (by rw [hk]; decide))

end State
end Chip8
