import Chip8.Proofs.Reach
import Chip8.Proofs.Transfer

/-!
The area of the machine.

What lies below `0x200` is the machine's own: the glyphs, and zeros after them. A program can aim a
write at it, directly or by wrapping at the end of memory, and can write itself such an instruction;
each such write fails as a whole. So no word changes a byte there (`read_protected_execute`), the
area is that of a fresh machine in every state that is reached (`Reached.read_protected`), and the
instruction that points at the glyph of a digit finds it (`reserved_kept`).
-/
namespace Chip8

namespace Memory

/-- The area of the machine at the start: the glyphs, then zeros. -/
theorem read_fresh (a : Address) : fresh.read a = glyphs.getD a.toNat 0 := by
  rw [fresh, read_load, glyphStart, if_pos (Nat.zero_le _), read_zero, Nat.sub_zero]

/-- Loading a program leaves the area of the machine alone. -/
theorem read_load_of_protected (m : Memory) (image : List Byte) {a : Address}
    (ha : a.toNat < programStart) : (m.load programStart image).read a = m.read a := by
  rw [read_load, if_neg (by omega)]

end Memory

namespace State
variable {d : Dialect} {s t : State} {a : Address}

/-! ### No write gets there -/

theorem read_protected_store {values : List Byte} (h : s.store values = .ok t)
    (ha : a.toNat < programStart) : t.memory.read a = s.memory.read a := by
  obtain ⟨hfree, rfl⟩ := store_eq_ok_iff.1 h
  exact Memory.read_transfer_of_protected hfree ha

theorem read_protected_perform {i : Instruction} (h : s.perform d i = .ok t)
    (ha : a.toNat < programStart) : t.memory.read a = s.memory.read a := by
  by_cases hp : .memory ∈ i.footprint d
  case neg => rw [perform_kept h hp]
  rcases Instruction.writtenBy_of_mem hp with ⟨x, rfl⟩ | ⟨x, rfl⟩
  · exact read_protected_store h ha
  · obtain ⟨u, hu, rfl⟩ := perform_store_eq_ok_iff.1 h
    rw [afterMove_eq]
    show u.memory.read a = _
    exact read_protected_store hu ha

theorem read_protected_outcome {w : Word} (h : s.outcome d w = .ok t)
    (ha : a.toNat < programStart) : t.memory.read a = s.memory.read a := by
  obtain ⟨i, -, hi⟩ := outcome_eq_ok_iff.1 h
  exact read_protected_perform hi ha

/-- No word changes a byte in the area of the machine, whether it fails or not. -/
theorem read_protected_execute (w address : Word) (ha : a.toNat < programStart) :
    (s.execute d w address).memory.read a = s.memory.read a := by
  rcases execute_cases d s w address with ⟨-, -, h⟩ | ⟨-, -, h⟩
  · rw [h]
  · exact read_protected_outcome h ha

theorem memory_poll (s : State) : s.poll.memory = s.memory := by
  rw [poll]
  split <;> rfl

theorem read_protected_step (ha : a.toNat < programStart) :
    (s.step d).memory.read a = s.memory.read a := by
  rcases step_cases d s with ⟨-, h⟩ | ⟨-, -, h⟩ | ⟨-, -, f, -, h⟩ | ⟨-, -, h⟩
  · rw [h]
  · rw [h, memory_poll]
  · rw [h]
  · rw [read_protected_outcome h ha]
    rfl

/-- The area of the machine is always that of a fresh one. -/
theorem Reached.read_protected {seed : BitVec 64} (h : s.Reached d seed)
    (ha : a.toNat < programStart) : s.memory.read a = Memory.fresh.read a := by
  induction h with
  | boot h =>
    obtain ⟨-, rfl⟩ := Machine.boot_eq_ok_iff.1 h
    exact Memory.read_load_of_protected Memory.fresh _ ha
  | step _ ih => rw [read_protected_step ha, ih]
  | tick _ ih | keys _ _ ih | look _ ih => exact ih

/-! ### Glyphs are found -/

/-- The bytes of the glyph of a digit. -/
def glyphBytes (digit : Nat) : List Byte := (glyphs.drop (glyphSize * digit)).take glyphSize

theorem glyphBytes_eq (digit : Fin 16) :
    glyphBytes digit =
      (List.range glyphSize).map fun i => glyphs.getD (glyphSize * digit.val + i) 0 := by
  revert digit
  decide

theorem outcome_glyph (d : Dialect) (s : State) (x : Nibble) :
    s.outcome d (Instruction.encode (.glyph x)) =
      .ok {s with index := BitVec.ofNat 16 (glyphStart + glyphSize * ((s.v x).toNat % 16))} :=
  outcome_of_decode (Instruction.decode_encode (by simp [Instruction.Shadowed]))

/-- The bytes from the address of a glyph on are the glyph, in every memory whose area of the
machine is that of a fresh one. -/
theorem readAll_glyph {m : Memory}
    (hm : ∀ a : Address, a.toNat < programStart → m.read a = Memory.fresh.read a) (digit : Fin 16) :
    m.readAll (BitVec.ofNat 16 (glyphStart + glyphSize * digit.val)).toNat glyphSize =
      glyphBytes digit := by
  rw [glyphBytes_eq, Memory.readAll, Memory.places, List.map_map]
  apply List.map_congr_left
  intro i hi
  have hdigit := digit.isLt
  rw [List.mem_range, glyphSize] at hi
  have hplace :
      (Memory.place (BitVec.ofNat 16 (glyphStart + glyphSize * digit.val)).toNat i).toNat =
        glyphSize * digit.val + i := by
    have := Memory.toNat_place (BitVec.ofNat 16 (glyphStart + glyphSize * digit.val)).toNat i
    rw [BitVec.toNat_ofNat, glyphStart, glyphSize] at *
    omega
  have hlow : glyphSize * digit.val + i < programStart := by
    rw [glyphSize, programStart]
    omega
  rw [Function.comp_apply, hm _ (by rw [hplace]; exact hlow), Memory.read_fresh, hplace]

end State

/-- **The area of the machine is never changed.** It has the glyphs and zeros of a fresh machine
after every list of calls, and `FX29` points at the glyph of its digit. -/
theorem reserved_kept (d : Dialect) (seed : BitVec 64) (image : List Byte)
    (h : image.length ≤ maxProgramSize) :
    ∃ m, Machine.create d seed image = .ok m ∧ ∀ calls : List Call,
      let n := (m.run calls).1
      (∀ a : Address, a.toNat < programStart →
        n.state.memory.read a = (State.fresh (Random.Key.ofSeed seed)).memory.read a ∧
          n.state.memory.read a = glyphs.getD a.toNat 0 ∧
          ∀ w address, (n.state.execute d w address).memory.read a = n.state.memory.read a) ∧
        (n.status ≠ .halted → ∀ x : Nibble,
          (∀ address,
            let t := n.state.execute d (Instruction.encode (.glyph x)) address
            t.memory.readAll t.index.toNat glyphSize =
              State.glyphBytes ((n.state.v x).toNat % 16)) ∧
          (n.state.waiting = false →
            n.state.wordAt n.state.pc = Instruction.encode (.glyph x) →
            let t := n.step.1.state
            t.memory.readAll t.index.toNat glyphSize =
              State.glyphBytes ((n.state.v x).toNat % 16))) := by
  obtain ⟨m, hm⟩ := Machine.create_of_le d seed h
  refine ⟨m, hm, fun calls => ?_⟩
  intro n
  have hn : n.Consistent d seed := (Machine.consistent_create hm).run calls
  have hread : ∀ a : Address, a.toNat < programStart →
      n.state.memory.read a = Memory.fresh.read a := fun a ha => hn.reached.read_protected ha
  refine ⟨fun a ha => ⟨hread a ha, ?_, fun w address => State.read_protected_execute w address ha⟩,
    fun hh x => ?_⟩
  · rw [hread a ha, Memory.read_fresh]
  have hr : n.state.fault.raised = false := by
    rw [← Bool.not_eq_true, ← hn.raised_iff]
    exact hh
  have hglyph := State.readAll_glyph hread ⟨(n.state.v x).toNat % 16, Nat.mod_lt _ (by decide)⟩
  refine ⟨fun address => ?_, fun hk hw => ?_⟩
  · rw [State.execute_of_ok (State.outcome_glyph d n.state x) hr]
    exact hglyph
  · have ho := State.outcome_glyph d n.state.fetch.1 x
    rw [← hw] at ho
    rw [Machine.state_step hh, hn.dialect_eq, State.step_of_outcome hr hk ho]
    exact hglyph

/-- A program that points at the glyph of `A` and then writes a register over it. -/
theorem reserved_kept_glyph :
    let image : List Byte := [0x60, 0x0A, 0xF0, 0x29, 0xF0, 0x55]
    image.length ≤ maxProgramSize ∧ ∃ m, Machine.create .modern 0 image = .ok m ∧
      (∃ t, (m.run [.step]).1.step.1.state = t ∧
        t.memory.readAll t.index.toNat glyphSize = [0xF0, 0x90, 0xF0, 0x90, 0x90]) ∧
      (m.run [.step, .step, .step]).1.status = .halted ∧
      ∀ a : Address, a.toNat < programStart →
        (m.run [.step, .step, .step]).1.state.memory.read a = glyphs.getD a.toNat 0 := by
  intro image
  have h : image.length ≤ maxProgramSize := by decide
  have heval : ((Machine.create .modern 0 image).toOption.any fun m =>
      let n := (m.run [.step]).1
      decide (n.status ≠ .halted ∧ n.state.waiting = false ∧
        n.state.wordAt n.state.pc = Instruction.encode (.glyph 0) ∧
        State.glyphBytes ((n.state.v 0).toNat % 16) = [0xF0, 0x90, 0xF0, 0x90, 0x90] ∧
        (m.run [.step, .step, .step]).1.status = .halted)) = true := by
    decide +kernel
  obtain ⟨m, hm, hkept⟩ := reserved_kept .modern 0 image h
  rw [hm] at heval
  obtain ⟨hr, hk, hw, hbytes, hhalted⟩ := of_decide_eq_true heval
  refine ⟨h, m, hm, ⟨_, rfl, ?_⟩, hhalted, fun a ha => ((hkept _).1 a ha).2.1⟩
  rw [← hbytes]
  exact ((hkept [.step]).2 hr 0).2 hk hw

end Chip8
