import Chip8.Machine
import Chip8.Proofs.WellFormed

/-!
What a host can bring about.

`State.Reached` are the states that a machine comes to, whatever its host calls and in which order:
a program at its start, and from there steps, ticks, keys and looks at the screen. An invariant of
states is proved along it, by one case for each, as `Reached.wellFormed` is. A machine keeps its
state beside what it last told its host; `Machine.Consistent` says that its state is reached and
that it told the truth, and `Consistent.run` that this holds after every list of calls.
-/
namespace Chip8

/-- The states that a machine of a dialect and a seed comes to. -/
inductive State.Reached (d : Dialect) (seed : BitVec 64) : State → Prop where
  | boot {image : List Byte} {s : State} (h : Machine.boot seed image = .ok s) : Reached d seed s
  | step {s : State} (h : Reached d seed s) : Reached d seed (s.step d)
  | tick {s : State} (h : Reached d seed s) : Reached d seed s.tick
  | keys {s : State} (h : Reached d seed s) (k : Keypad) : Reached d seed (s.withKeypad k)
  | look {s : State} (h : Reached d seed s) : Reached d seed {s with drawn := false}

/-! ### Programs at their start -/

namespace Machine

theorem boot_eq_ok_iff {seed : BitVec 64} {image : List Byte} {s : State} :
    boot seed image = .ok s ↔
      image.length ≤ maxProgramSize ∧
        s = {State.fresh (Random.Key.ofSeed seed) with
          memory := Memory.fresh.load programStart image} := by
  rw [boot, State.load, State.roomFor]
  split
  · next h => simp [Except.map, h, State.fresh, eq_comm]
  · next h => simp [Except.map, h]

theorem create_eq_ok_iff {d : Dialect} {seed : BitVec 64} {image : List Byte} {m : Machine} :
    create d seed image = .ok m ↔
      ∃ s, boot seed image = .ok s ∧ m = ⟨d, seed, image, s, .ready, none⟩ := by
  rw [create]
  cases boot seed image with
  | error e => simp [Except.map]
  | ok s => simp [Except.map, eq_comm]

/-- A program that fits makes a machine. -/
theorem create_of_le (d : Dialect) (seed : BitVec 64) {image : List Byte}
    (h : image.length ≤ maxProgramSize) : ∃ m, create d seed image = .ok m :=
  ⟨_, create_eq_ok_iff.2 ⟨_, boot_eq_ok_iff.2 ⟨h, rfl⟩, rfl⟩⟩

end Machine

namespace State

theorem wellFormed_boot {seed : BitVec 64} {image : List Byte} {s : State}
    (h : Machine.boot seed image = .ok s) : s.WellFormed := by
  obtain ⟨-, rfl⟩ := Machine.boot_eq_ok_iff.1 h
  have hpc : (BitVec.ofNat 16 programStart).toNat < 4096 := by decide
  have hindex : (0 : Word).toNat < 4096 := by decide
  have htarget : (0 : Int) < 16 := by decide
  have hcode : 0 ≤ FaultRecord.clear.code ∧ FaultRecord.clear.code ≤ 4 := by decide
  exact ⟨⟨hpc, hindex, Stack.sound_empty, Int.le_refl 0, htarget, hcode, fun _ => rfl⟩,
    fun hk => by cases hk⟩

theorem Reached.wellFormed {d : Dialect} {seed : BitVec 64} {s : State} (h : s.Reached d seed) :
    s.WellFormed := by
  induction h with
  | boot h => exact wellFormed_boot h
  | step _ ih => exact ih.step
  | tick _ ih | keys _ _ ih | look _ ih => exact {ih with}

/-- How a state stands. -/
def status (s : State) : Status :=
  if s.fault.raised then .halted else if s.waiting then .waiting else .ready

/-- The record of a machine stands for an error, or for none if it is clear. -/
theorem diagnosis_of_code {s : State} (h : 0 ≤ s.fault.code ∧ s.fault.code ≤ 4) :
    ∃ e, s.diagnosis = .ok e ∧ (e = none ↔ s.fault.raised = false) := by
  obtain ⟨hlow, hhigh⟩ := h
  rw [not_raised_iff, diagnosis, Error.ofRecord]
  have hcode : s.fault.code = 0 ∨ s.fault.code = 1 ∨ s.fault.code = 2 ∨ s.fault.code = 3 ∨
      s.fault.code = 4 := by omega
  rcases hcode with hc | hc | hc | hc | hc <;> rw [hc] <;> exact ⟨_, rfl, by simp⟩

end State

/-! ### Machines and what they tell -/

namespace Machine

theorem step_of_halted {m : Machine} (h : m.status = .halted) :
    m.step = (m, ⟨.halted, m.error, m.haltAddress⟩) := by
  simp only [step, h]

theorem step_of_error {m : Machine} {e : Error} (h : m.status ≠ .halted)
    (he : (m.state.step m.dialect).diagnosis = .ok (some e)) :
    m.step = ({m with state := m.state.step m.dialect, status := .halted, error := some e},
      ⟨.halted, some e, some (m.state.step m.dialect).fault.address⟩) := by
  unfold step
  split
  · contradiction
  · simp only [he]

theorem step_of_none {m : Machine} (h : m.status ≠ .halted)
    (he : (m.state.step m.dialect).diagnosis = .ok none) :
    m.step =
      ({m with
          state := m.state.step m.dialect
          status := if (m.state.step m.dialect).waiting then .waiting else .ready},
        ⟨if (m.state.step m.dialect).waiting then .waiting else .ready, none, none⟩) := by
  unfold step
  split
  · contradiction
  · simp only [he]

/-- A machine that has not halted makes the step of its state. -/
theorem state_step {m : Machine} (h : m.status ≠ .halted) :
    m.step.1.state = m.state.step m.dialect := by
  unfold step
  split
  · contradiction
  · dsimp only
    split <;> rfl

/-- A machine of a dialect and a seed whose state is reached, and which told its host how that
stands. -/
structure Consistent (d : Dialect) (seed : BitVec 64) (m : Machine) : Prop where
  dialect_eq : m.dialect = d
  seed_eq : m.seed = seed
  reached : m.state.Reached d seed
  status_eq : m.status = m.state.status
  error_eq : m.state.diagnosis = .ok m.error

variable {d : Dialect} {seed : BitVec 64} {m : Machine}

theorem consistent_create {image : List Byte} (h : create d seed image = .ok m) :
    m.Consistent d seed := by
  obtain ⟨s, hs, rfl⟩ := create_eq_ok_iff.1 h
  refine ⟨rfl, rfl, .boot hs, ?_, ?_⟩
  all_goals
    obtain ⟨-, rfl⟩ := boot_eq_ok_iff.1 hs
    rfl

theorem Consistent.raised_iff (h : m.Consistent d seed) :
    m.status = .halted ↔ m.state.fault.raised = true := by
  rw [h.status_eq, State.status]
  split
  · next hr => simp [hr]
  · next hr => split <;> simp [hr]

theorem Consistent.error_eq_none_iff (h : m.Consistent d seed) :
    m.error = none ↔ m.state.fault.raised = false := by
  obtain ⟨e, he, hnone⟩ := State.diagnosis_of_code h.reached.wellFormed.code
  rw [h.error_eq] at he
  rw [Except.ok.inj he, hnone]

theorem Consistent.step (h : m.Consistent d seed) : m.step.1.Consistent d seed := by
  by_cases hh : m.status = .halted
  · rw [step_of_halted hh]
    exact h
  have hreached : (m.state.step m.dialect).Reached d seed := by
    rw [h.dialect_eq]
    exact h.reached.step
  obtain ⟨e, he, hnone⟩ := State.diagnosis_of_code hreached.wellFormed.code
  cases e with
  | some e =>
    rw [step_of_error hh he]
    have hr : (m.state.step m.dialect).fault.raised = true := by simpa using hnone
    exact ⟨h.dialect_eq, h.seed_eq, hreached, by simp [State.status, hr], he⟩
  | none =>
    rw [step_of_none hh he]
    have hr : (m.state.step m.dialect).fault.raised = false := hnone.1 rfl
    have herror : m.error = none := by
      rw [h.error_eq_none_iff, ← Bool.not_eq_true, ← h.raised_iff]
      exact hh
    refine ⟨h.dialect_eq, h.seed_eq, hreached, by simp [State.status, hr], ?_⟩
    rw [he, herror]

/-- What holds of a machine and of the one that a call gives, holds after the call. -/
theorem of_settle {ε : Type} {P : Machine → Prop} {failure : ε → Reply}
    {r : Except ε Machine} (h : P m) (hr : ∀ n, r = .ok n → P n) : P (m.settle failure r).1 := by
  cases r with
  | error e => exact h
  | ok n => exact hr n rfl

theorem Consistent.withKeypad (h : m.Consistent d seed) (k : Keypad) :
    (m.withKeypad k).Consistent d seed :=
  ⟨h.dialect_eq, h.seed_eq, h.reached.keys k, h.status_eq, h.error_eq⟩

theorem Consistent.map_withKeypad (h : m.Consistent d seed) {n : Machine}
    {keys : Except Refusal Keypad} (hn : keys.map m.withKeypad = .ok n) : n.Consistent d seed := by
  cases keys with
  | error e => cases hn
  | ok k =>
    cases hn
    exact h.withKeypad k

theorem Consistent.load (h : m.Consistent d seed) {n : Machine} {image : List Byte}
    (hn : m.load image = .ok n) : n.Consistent d seed := by
  rw [Machine.load, h.dialect_eq, h.seed_eq] at hn
  exact consistent_create hn

theorem Consistent.call (h : m.Consistent d seed) (c : Call) : (m.call c).1.Consistent d seed := by
  cases c with
  | step => exact h.step
  | tick => exact ⟨h.dialect_eq, h.seed_eq, h.reached.tick, h.status_eq, h.error_eq⟩
  | setKeys keys => exact of_settle h fun n hn => h.map_withKeypad hn
  | pressKey key down => exact of_settle h fun n hn => h.map_withKeypad hn
  | takeDrawn => exact ⟨h.dialect_eq, h.seed_eq, h.reached.look, h.status_eq, h.error_eq⟩
  | load image => exact of_settle h fun n hn => h.load hn
  | reset => exact of_settle h fun n hn => h.load hn

theorem Consistent.run (h : m.Consistent d seed) (calls : List Call) :
    (m.run calls).1.Consistent d seed := by
  induction calls generalizing m with
  | nil => exact h
  | cons c rest ih => exact ih (h.call c)

end Machine
end Chip8
