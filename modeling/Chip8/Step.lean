import Chip8.Execute

/-!
One step of the machine.

A step fetches the word at the counter and executes it, or looks at the keypad while an instruction
waits for a key; a machine that has stopped stays as it is. Execution takes a failed instruction
back to the state after the fetch, and the step takes that back once more, to the state before it.
The two come to one (`rollback_rollback`, `advance_eq`).
-/
namespace Chip8.State

/-- The word at an address, its second byte wrapping at the end of memory. -/
def wordAt (s : State) (a : Word) : Word :=
  Word.ofBytes (s.memory.readWord a) (s.memory.readWord (a + 1).wrap)

/-- The state with the counter past the next word, and that word. -/
def fetch (s : State) : State × Word :=
  ({s with pc := (s.pc + 2).wrap}, s.wordAt s.pc)

/-- Registers after a key went to the register it was awaited in. -/
def receiveKey (s : State) (key : Fin 16) : Registers :=
  match slot? 16 s.keyTarget with
  | some x => s.registers.set x (BitVec.ofNat 8 key) (lt_sixteen x)
  | none => s.registers

/-- A look at the keypad for an instruction that waits. A key pressed since the last look ends the
wait; either way the keypad is what the next look compares with. -/
def poll (s : State) : State :=
  match Keypad.firstPressed? s.keypad s.keysSeen with
  | some key =>
    {s with
      registers := s.receiveKey key
      pc := (s.pc + 2).wrap
      waiting := false
      keysSeen := s.keypad}
  | none => {s with keysSeen := s.keypad}

/-- The next instruction executed, and the fetch taken back with it if it fails. -/
def advance (d : Dialect) (s : State) : State :=
  let (t, w) := s.fetch
  s.rollback (t.execute d w s.pc) s.pc

/-- One step. -/
def step (d : Dialect) (s : State) : State :=
  if s.fault.raised then s
  else if s.waiting then s.poll
  else s.advance d

/-- What is taken back to one state and then to another is taken back to the last. -/
theorem rollback_rollback (s t u : State) (address : Word) :
    s.rollback (t.rollback u address) address = s.rollback u address := by
  by_cases hu : u.fault.raised = true
  · have hkept : (t.rollback u address).fault.raised = true := by
      rw [rollback, if_pos hu]
      exact hu
    rw [rollback, if_pos hkept, rollback, rollback, if_pos hu, if_pos hu]
  · rw [rollback, rollback, rollback, if_neg hu]

theorem advance_eq (d : Dialect) (s : State) :
    s.advance d = s.rollback (s.fetch.1.dispatch d s.fetch.2) s.pc :=
  rollback_rollback s s.fetch.1 (s.fetch.1.dispatch d s.fetch.2) s.pc

theorem step_of_raised {d : Dialect} {s : State} (h : s.fault.raised = true) : s.step d = s := by
  simp [step, h]

theorem step_of_waiting {d : Dialect} {s : State} (h : s.fault.raised = false)
    (hk : s.waiting = true) : s.step d = s.poll := by
  simp [step, h, hk]

theorem step_of_running {d : Dialect} {s : State} (h : s.fault.raised = false)
    (hk : s.waiting = false) : s.step d = s.advance d := by
  simp [step, h, hk]

end Chip8.State
