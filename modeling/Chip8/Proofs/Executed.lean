import Chip8.Proofs.Atomicity

/-!
What a step executes.

A step is more than an instruction: it fetches, it may look at the keypad, and it may fail. Of most
parts of a state none of this is seen. `kept_or_executes` is the frame of a step for these parts:
one of them stays, or the step is the effect of an instruction that has it in its footprint.
-/
namespace Chip8

/-- A part that instructions alone write, and neither fetches, looks at the keypad nor faults. -/
def Part.ByInstructions : Part → Prop
  | .counter | .register _ | .wait | .fault => False
  | .memory | .index | .stack | .delayTimer | .soundTimer | .keypad | .screen | .random => True

theorem Part.Kept.refl (p : Part) (s : State) : p.Kept s s := by
  cases p <;> simp only [Part.Kept, and_self]

namespace State
variable {d : Dialect} {s : State} {p : Part}

/-- The next step executes an instruction. -/
structure Executes (s : State) (i : Instruction) : Prop where
  running : s.fault.raised = false
  awake : s.waiting = false
  decoded : Instruction.decode (s.wordAt s.pc) = some i

/-- The word that the next step fetches. A state that has stopped or waits for a key fetches
none. -/
def fetched? (s : State) : Option Word :=
  if s.fault.raised || s.waiting then none else some (s.wordAt s.pc)

/-- The instruction that the next step executes, if it fetches one. -/
def executing? (s : State) : Option Instruction := s.fetched?.bind Instruction.decode

theorem fetched?_eq_some_iff {w : Word} :
    s.fetched? = some w ↔ s.fault.raised = false ∧ s.waiting = false ∧ s.wordAt s.pc = w := by
  cases hr : s.fault.raised <;> cases hk : s.waiting <;> simp [fetched?, hr, hk]

theorem executing?_eq_some_iff {i : Instruction} : s.executing? = some i ↔ s.Executes i := by
  simp only [executing?, Option.bind_eq_some_iff, fetched?_eq_some_iff]
  constructor
  · rintro ⟨w, ⟨hr, hk, rfl⟩, hi⟩
    exact ⟨hr, hk, hi⟩
  · intro h
    exact ⟨_, ⟨h.running, h.awake, rfl⟩, h.decoded⟩

theorem Executes.outcome_eq {i : Instruction} (h : s.Executes i) (d : Dialect) :
    s.fetch.1.outcome d (s.wordAt s.pc) = s.fetch.1.perform d i :=
  outcome_of_decode h.decoded

/-- An instruction that does not fail is what a step comes to. -/
theorem Executes.step_eq {i : Instruction} {t : State} (h : s.Executes i)
    (ht : s.fetch.1.perform d i = .ok t) : s.step d = t := by
  rw [← h.outcome_eq] at ht
  exact step_of_outcome h.running h.awake ht

theorem kept_poll (hp : p.ByInstructions) (s : State) : p.Kept s s.poll := by
  rw [poll]
  split <;> cases p <;> first | contradiction | simp only [Part.Kept, and_self]

theorem kept_of_fault (hp : p.ByInstructions) (s : State) (r : FaultRecord) :
    p.Kept s {s with fault := r} := by
  cases p <;> first | contradiction | simp only [Part.Kept, and_self]

theorem kept_of_fetch {t : State} (hp : p.ByInstructions) (h : p.Kept s.fetch.1 t) :
    p.Kept s t := by
  cases p <;> first | contradiction | exact h

/-- A step keeps a part that instructions alone write, or is the effect of one that may write it. -/
theorem kept_or_executes (d : Dialect) (s : State) (hp : p.ByInstructions) :
    p.Kept s (s.step d) ∨
      ∃ i, s.Executes i ∧ p ∈ i.footprint d ∧ s.fetch.1.perform d i = .ok (s.step d) := by
  rcases step_cases d s with ⟨-, h⟩ | ⟨-, -, h⟩ | ⟨-, -, f, -, h⟩ | ⟨hr, hk, ho⟩
  · rw [h]
    exact .inl (.refl p s)
  · rw [h]
    exact .inl (kept_poll hp s)
  · rw [h]
    exact .inl (kept_of_fault hp s _)
  · obtain ⟨i, hd, hi⟩ := outcome_eq_ok_iff.1 ho
    by_cases hfoot : p ∈ i.footprint d
    · exact .inr ⟨i, ⟨hr, hk, hd⟩, hfoot, hi⟩
    · exact .inl (kept_of_fetch hp (perform_kept hi hfoot))

end State
end Chip8
