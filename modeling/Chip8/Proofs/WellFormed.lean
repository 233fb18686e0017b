import Chip8.Proofs.Atomicity
import Chip8.Proofs.Opcode
import Chip8.Proofs.Stack

/-!
States that a machine can have.

The fields of a state are plain numbers, and most of their values belong to no machine. `WellFormed`
says which do: addresses have twelve bits, the stack is sound, the awaited key goes to a register,
the fault record is that of a fault or clear, and an instruction that waits is under the counter. A
step keeps it (`WellFormed.step`), and so does all that a host does between two steps.
-/
namespace Chip8.State
variable {d : Dialect} {s t : State} {i : Instruction}

/-- The numbers of a state are in the range of what they stand for. -/
structure Bounded (s : State) : Prop where
  pc_lt : s.pc.toNat < 4096
  index_lt : s.index.toNat < 4096
  stack : s.stack.Sound
  keyTarget_nonneg : 0 ≤ s.keyTarget
  keyTarget_lt : s.keyTarget < 16
  /-- The number of no fault, or of one of the four kinds. -/
  code : 0 ≤ s.fault.code ∧ s.fault.code ≤ 4
  clear : s.fault.code = 0 → s.fault = FaultRecord.clear

/-- The numbers are in range, and a state that waits runs and is on the instruction that waits. -/
structure WellFormed (s : State) : Prop extends Bounded s where
  waiting : s.waiting = true →
    s.fault.code = 0 ∧ ((s.wordAt s.pc).toNat : Int) = 0xF00A + 0x100 * s.keyTarget

/-! ### What instructions do to the ranges -/

theorem toNat_wrap_lt (w : Word) : w.wrap.toNat < 4096 := by
  rw [Word.toNat_wrap]
  omega

theorem toNat_setWidth_lt (a : Address) : (a.setWidth 16).toNat < 4096 := by
  have := a.isLt
  rw [BitVec.toNat_setWidth]
  omega

theorem pc_of_perform (hpc : s.pc.toNat < 4096) (hs : s.stack.Sound)
    (h : s.perform d i = .ok t) : t.pc.toNat < 4096 := by
  by_cases hp : .counter ∈ i.footprint d
  case neg =>
    rw [perform_kept h hp]
    exact hpc
  rcases Instruction.writtenBy_of_mem hp with
    rfl | ⟨a, rfl⟩ | ⟨a, rfl⟩ | ⟨c, rfl⟩ | ⟨a, rfl⟩ | ⟨x, rfl⟩
  · simp only [perform] at h
    split at h <;> cases h
    exact hs.address_lt
  · simp only [perform] at h
    split at h <;> cases h
    exact toNat_setWidth_lt a
  · cases h
    exact toNat_setWidth_lt a
  · cases h
    rw [attempt, skipIf]
    split
    · exact toNat_wrap_lt _
    · exact hpc
  · cases h
    exact toNat_wrap_lt _
  · cases h
    exact toNat_wrap_lt _

theorem index_afterMove (hi : s.index.toNat < 4096) (x : Nibble) :
    (s.afterMove d x).index.toNat < 4096 := by
  rw [afterMove]
  split
  · exact toNat_wrap_lt _
  · exact hi

theorem index_of_perform (hi : s.index.toNat < 4096) (h : s.perform d i = .ok t) :
    t.index.toNat < 4096 := by
  by_cases hp : .index ∈ i.footprint d
  case neg =>
    rw [perform_kept h hp]
    exact hi
  rcases Instruction.writtenBy_of_mem hp with
    ⟨a, rfl⟩ | ⟨x, rfl⟩ | ⟨x, rfl⟩ | ⟨x, rfl⟩ | ⟨x, rfl⟩
  · cases h
    exact toNat_setWidth_lt a
  · cases h
    exact toNat_wrap_lt _
  · cases h
    have hdigit := Nat.mod_lt (s.v x).toNat (by decide : 16 > 0)
    rw [attempt, BitVec.toNat_ofNat, glyphStart, glyphSize, Nat.mod_eq_of_lt (by omega)]
    omega
  · obtain ⟨u, hu, rfl⟩ := perform_store_eq_ok_iff.1 h
    obtain ⟨-, rfl⟩ := store_eq_ok_iff.1 hu
    refine index_afterMove ?_ x
    exact hi
  · cases h
    refine index_afterMove ?_ x
    exact hi

/-- An instruction leaves the stack, takes an address off it, or puts the counter on it. -/
theorem stack_cases_of_perform (h : s.perform d i = .ok t) :
    t.stack = s.stack ∨ (0 < s.stack.pointer ∧ t.stack = s.stack.pop.stack) ∨
      (s.stack.pointer < 16 ∧ t.stack = (s.stack.push s.pc).1) := by
  by_cases hp : .stack ∈ i.footprint d
  case neg => exact .inl (perform_kept h hp)
  right
  rcases Instruction.writtenBy_of_mem hp with rfl | ⟨a, rfl⟩
  · simp only [perform, Stack.pop, decide_eq_true_eq] at h
    split at h
    · cases h
    · next hempty =>
      cases h
      exact .inl ⟨by omega, rfl⟩
  · simp only [perform, Stack.push, decide_eq_true_eq] at h
    split at h
    · cases h
    · next hfull =>
      cases h
      rw [stackDepth] at hfull
      exact .inr ⟨by omega, rfl⟩

theorem stack_of_perform (hs : s.stack.Sound) (h : s.perform d i = .ok t) : t.stack.Sound := by
  rcases stack_cases_of_perform h with ht | ⟨-, ht⟩ | ⟨hfull, ht⟩
  · rw [ht]
    exact hs
  · rw [ht]
    exact hs.pop
  · rw [ht]
    exact hs.push hfull s.pc

/-- An instruction waits for a key, or leaves the wait as it was. -/
theorem wait_of_perform (h : s.perform d i = .ok t) :
    (t.waiting = s.waiting ∧ t.keyTarget = s.keyTarget ∧ t.keysSeen = s.keysSeen) ∨
      ∃ x, i = .waitKey x ∧ t = {s with
        pc := (s.pc - 2).wrap
        waiting := true
        keyTarget := x.toNat
        keysSeen := s.keypad} := by
  by_cases hp : .wait ∈ i.footprint d
  case neg => exact .inl (perform_kept h hp)
  obtain ⟨x, rfl⟩ := Instruction.writtenBy_of_mem hp
  cases h
  exact .inr ⟨x, rfl, rfl⟩

theorem Bounded.perform (hs : s.Bounded) (h : s.perform d i = .ok t) : t.Bounded where
  pc_lt := pc_of_perform hs.pc_lt hs.stack h
  index_lt := index_of_perform hs.index_lt h
  stack := stack_of_perform hs.stack h
  keyTarget_nonneg := by
    rcases wait_of_perform h with ⟨-, hk, -⟩ | ⟨x, -, rfl⟩
    · rw [hk]
      exact hs.keyTarget_nonneg
    · exact Int.natCast_nonneg _
  keyTarget_lt := by
    rcases wait_of_perform h with ⟨-, hk, -⟩ | ⟨x, -, rfl⟩
    · rw [hk]
      exact hs.keyTarget_lt
    · exact Int.ofNat_lt.2 x.isLt
  code := by
    rw [fault_of_perform h]
    exact hs.code
  clear := by
    rw [fault_of_perform h]
    exact hs.clear

/-! ### What steps do -/

theorem Bounded.fetch (hs : s.Bounded) : s.fetch.1.Bounded :=
  {hs with pc_lt := toNat_wrap_lt _}

/-- Going back over an instruction ends where it was fetched, also at the end of memory. -/
theorem wrap_sub_wrap_add {a : Word} (h : a.toNat < 4096) :
    Word.wrap (Word.wrap (a + 2) - 2) = a := by
  apply BitVec.eq_of_toNat_eq
  rw [Word.toNat_wrap, BitVec.toNat_sub, Word.toNat_wrap_add]
  simp only [BitVec.ofNat_eq_ofNat, BitVec.toNat_ofNat]
  omega

theorem toNat_waitKey (x : Nibble) :
    ((Instruction.encode (.waitKey x)).toNat : Int) = 0xF00A + 0x100 * x.toNat := by
  rw [Instruction.encode, Instruction.toNat_withByte]
  simp only [BitVec.ofNat_eq_ofNat, BitVec.toNat_ofNat]
  omega

/-- The effect of the fetched word. -/
theorem WellFormed.outcome (hs : s.WellFormed) (hr : s.fault.raised = false)
    (hk : s.waiting = false) (h : s.fetch.1.outcome d (s.wordAt s.pc) = .ok t) :
    t.WellFormed := by
  obtain ⟨i, hd, hi⟩ := outcome_eq_ok_iff.1 h
  refine {hs.toBounded.fetch.perform hi with waiting := fun ht => ?_}
  rcases wait_of_perform hi with ⟨hwait, -⟩ | ⟨x, rfl, rfl⟩
  · rw [hwait] at ht
    change s.waiting = true at ht
    rw [hk] at ht
    cases ht
  · refine ⟨not_raised_iff.1 hr, ?_⟩
    show ((s.wordAt (Word.wrap (Word.wrap (s.pc + 2) - 2))).toNat : Int) = _
    rw [wrap_sub_wrap_add hs.pc_lt, ← Instruction.encode_of_decode hd]
    exact toNat_waitKey x

theorem WellFormed.poll (hs : s.WellFormed) : s.poll.WellFormed := by
  rw [State.poll]
  split
  · exact {hs with pc_lt := toNat_wrap_lt _, waiting := fun h => by cases h}
  · exact {hs with}

theorem code_of (f : Fault) (a : Word) :
    0 ≤ (FaultRecord.of f a).code ∧ (FaultRecord.of f a).code ≤ 4 := by
  cases f <;> simp [FaultRecord.of, Fault.code]

theorem WellFormed.failed (hs : s.WellFormed) (hk : s.waiting = false) (f : Fault) (a : Word) :
    ({s with fault := FaultRecord.of f a} : State).WellFormed :=
  {hs with
    code := code_of f a
    clear := fun h => absurd h f.code_ne_zero
    waiting := fun h => by
      change s.waiting = true at h
      rw [hk] at h
      cases h}

theorem WellFormed.step (hs : s.WellFormed) : (s.step d).WellFormed := by
  rcases step_cases d s with ⟨-, h⟩ | ⟨-, -, h⟩ | ⟨-, hk, f, -, h⟩ | ⟨hr, hk, ho⟩
  · rw [h]
    exact hs
  · rw [h]
    exact hs.poll
  · rw [h]
    exact hs.failed hk f s.pc
  · exact hs.outcome hr hk ho

end Chip8.State
