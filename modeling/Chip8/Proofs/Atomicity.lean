import Chip8.Proofs.Footprint
import Chip8.Step

/-!
Faults are atomic, and they stay.

A word that fails may have changed the state before, and a step takes it back twice: the word, and
the fetch with it. Both come down to `rollback_dispatch_of_error`. `step_cases` is then the way into
a step, which is one of four things, and `execute_cases` the way into a word by itself. The main
result `fault_atomic` has two halves. An instruction that ends in a fault, alone or in a step,
leaves nothing behind but its fault record, and a state that has one keeps it, and all else, through
every sequence of instructions and steps.
-/
namespace Chip8.State
variable {d : Dialect} {s t : State}

/-! ### Single instructions -/

/-- An instruction that has an effect does not touch the fault record. -/
theorem fault_of_perform {i : Instruction} (h : s.perform d i = .ok t) : t.fault = s.fault :=
  perform_kept (p := .fault) h Instruction.writtenBy_of_mem

theorem outcome_of_decode {w : Word} {i : Instruction} (h : Instruction.decode w = some i) :
    s.outcome d w = s.perform d i := by
  simp only [outcome, h]

theorem outcome_of_data {w : Word} (h : Instruction.decode w = none) :
    s.outcome d w = .error (.invalidOpcode w) := by
  simp only [outcome, h]

/-- A word that has an effect has that of the instruction it spells. -/
theorem outcome_eq_ok_iff {w : Word} :
    s.outcome d w = .ok t ↔ ∃ i, Instruction.decode w = some i ∧ s.perform d i = .ok t := by
  cases hd : Instruction.decode w with
  | none => simp [outcome_of_data hd]
  | some i => simp [outcome_of_decode hd]

theorem fault_of_outcome {w : Word} (h : s.outcome d w = .ok t) : t.fault = s.fault := by
  obtain ⟨i, -, hi⟩ := outcome_eq_ok_iff.1 h
  exact fault_of_perform hi

/-! ### Attempts of words -/

/-- A word that fails leaves the state it was executed in, with the fault on record. Both rollbacks
of a step come down to this. -/
theorem rollback_dispatch_of_error {r : State} {w : Word} {f : Fault}
    (ho : s.outcome d w = .error f) (address : Word) :
    r.rollback (s.dispatch d w) address = {r with fault := FaultRecord.of f address} := by
  have hattempt := attemptAt_dispatch d s w
  rw [ho] at hattempt
  exact hattempt.rollback_of_error address

theorem dispatch_of_ok {w : Word} (ho : s.outcome d w = .ok t) : s.dispatch d w = t := by
  have hattempt := attemptAt_dispatch d s w
  rw [ho] at hattempt
  exact hattempt.eq_of_ok

/-- Of a state without a fault record, an effect is not taken back. -/
theorem rollback_dispatch_of_ok {r : State} {w : Word} (ho : s.outcome d w = .ok t)
    (hr : s.fault.raised = false) (address : Word) : r.rollback (s.dispatch d w) address = t := by
  rw [dispatch_of_ok ho]
  exact rollback_of_not_raised (by rw [fault_of_outcome ho, hr]) address

/-! ### The ways of a step -/

theorem step_of_fault {f : Fault} (h : s.fault.raised = false) (hk : s.waiting = false)
    (hf : s.fetch.1.outcome d s.fetch.2 = .error f) :
    s.step d = {s with fault := FaultRecord.of f s.pc} := by
  rw [step_of_running h hk, advance_eq, rollback_dispatch_of_error hf]

theorem step_of_outcome (h : s.fault.raised = false) (hk : s.waiting = false)
    (ht : s.fetch.1.outcome d s.fetch.2 = .ok t) : s.step d = t := by
  rw [step_of_running h hk, advance_eq]
  exact rollback_dispatch_of_ok ht h s.pc

/-- A step stays put, looks at the keypad, fails, or is the effect of the fetched word. -/
theorem step_cases (d : Dialect) (s : State) :
    (s.fault.raised = true ∧ s.step d = s) ∨
      (s.fault.raised = false ∧ s.waiting = true ∧ s.step d = s.poll) ∨
      (s.fault.raised = false ∧ s.waiting = false ∧ ∃ f,
        s.fetch.1.outcome d (s.wordAt s.pc) = .error f ∧
          s.step d = {s with fault := FaultRecord.of f s.pc}) ∨
      (s.fault.raised = false ∧ s.waiting = false ∧
        s.fetch.1.outcome d (s.wordAt s.pc) = .ok (s.step d)) := by
  by_cases hr : s.fault.raised = true
  · exact .inl ⟨hr, step_of_raised hr⟩
  rw [Bool.not_eq_true] at hr
  right
  by_cases hk : s.waiting = true
  · exact .inl ⟨hr, hk, step_of_waiting hr hk⟩
  rw [Bool.not_eq_true] at hk
  right
  cases ho : s.fetch.1.outcome d (s.wordAt s.pc) with
  | error f => exact .inl ⟨hr, hk, f, rfl, step_of_fault hr hk ho⟩
  | ok t => exact .inr ⟨hr, hk, by rw [step_of_outcome hr hk ho]⟩

theorem fault_poll (s : State) : s.poll.fault = s.fault := by
  rw [poll]
  split <;> rfl

/-! ### Faults leave nothing else behind -/

/-- State `t` is state `s` in everything but the fault record. -/
def SameButFault (s t : State) : Prop := t = {s with fault := t.fault}

theorem SameButFault.trans {s t u : State} (h : SameButFault s t) (h' : SameButFault t u) :
    SameButFault s u := by
  unfold SameButFault at *
  calc u = {t with fault := u.fault} := h'
    _ = {s with fault := u.fault} := by rw [h]

theorem raised_iff {r : FaultRecord} : r.raised = true ↔ r.code ≠ 0 := by
  simp [FaultRecord.raised]

theorem not_raised_iff {r : FaultRecord} : r.raised = false ↔ r.code = 0 := by
  simp [FaultRecord.raised]

theorem execute_of_error {w : Word} {f : Fault} (ho : s.outcome d w = .error f) (address : Word) :
    s.execute d w address = {s with fault := FaultRecord.of f address} :=
  rollback_dispatch_of_error ho address

/-- A fault record that is there already counts as a failure. -/
theorem execute_of_raised {w : Word} (ho : s.outcome d w = .ok t) (hr : s.fault.raised = true)
    (address : Word) :
    s.execute d w address = {s with fault := {s.fault with address := address.wrap}} := by
  have ht : t.fault = s.fault := fault_of_outcome ho
  rw [execute, dispatch_of_ok ho, rollback_of_raised (by rw [ht, hr]), ht]

theorem execute_of_ok {w : Word} (ho : s.outcome d w = .ok t) (hr : s.fault.raised = false)
    (address : Word) : s.execute d w address = t :=
  rollback_dispatch_of_ok ho hr address

/-- Executing a word ends in a state with a fault record, which has the address and nothing else
new, or in a state without one, which comes from a state without one. -/
theorem execute_cases (d : Dialect) (s : State) (w address : Word) :
    ((s.execute d w address).fault.raised = true ∧
        (s.execute d w address).fault.address = address.wrap ∧
        SameButFault s (s.execute d w address)) ∨
      ((s.execute d w address).fault.raised = false ∧ s.fault.raised = false ∧
        s.outcome d w = .ok (s.execute d w address)) := by
  cases ho : s.outcome d w with
  | error f =>
    rw [execute_of_error ho]
    exact .inl ⟨FaultRecord.raised_of f address, rfl, rfl⟩
  | ok t =>
    by_cases hr : s.fault.raised = true
    · rw [execute_of_raised ho hr]
      exact .inl ⟨hr, rfl, rfl⟩
    · rw [Bool.not_eq_true] at hr
      rw [execute_of_ok ho hr]
      exact .inr ⟨by rw [fault_of_outcome ho, hr], hr, rfl⟩

/-- A step from a state without a fault record to one with it changes the fault record alone. -/
theorem step_of_raised_after (h : s.fault.raised = false) (ha : (s.step d).fault.raised = true) :
    (s.step d).fault.address = s.pc.wrap ∧ SameButFault s (s.step d) := by
  rcases step_cases d s with ⟨hr, -⟩ | ⟨-, -, hs⟩ | ⟨-, -, f, -, hs⟩ | ⟨-, -, ho⟩
  · rw [h] at hr
    cases hr
  · rw [hs, fault_poll, h] at ha
    cases ha
  · rw [hs]
    exact ⟨rfl, rfl⟩
  · rw [fault_of_outcome ho] at ha
    change s.fault.raised = true at ha
    rw [h] at ha
    cases ha

/-! ### Integers of a host -/

/-- An integer of thirty-two bits is never moved. -/
theorem moved_integer (cut : Numeral.Binary → Int) (low high : Int) {n : Int}
    (h : -0x80000000 ≤ n ∧ n < 0x80000000) : Value.moved cut low high (.integer n) = .ok n := by
  have hpow : ((Nat.pow 2 32 : Nat) : Int) = 0x100000000 := rfl
  have hs : (signed? 32 n).isSome = true := isSome_signed?_iff.2 (by omega)
  show (if (signed? 32 n).isSome then Except.ok n else Except.error Refusal.outOfRange) = _
  rw [if_pos hs]

/-- A host's instruction is the low sixteen bits of its integer. -/
theorem opcode_integer {n : Int} (h : -0x80000000 ≤ n ∧ n < 0x80000000) :
    (Value.integer n).opcode = .ok (BitVec.ofInt 16 n) := by
  rw [Value.opcode, Value.int32, moved_integer _ _ _ h]
  rfl

/-- A host's address is the low sixteen bits of its integer. -/
theorem address_integer {n : Int} (h : -0x80000000 ≤ n ∧ n < 0x80000000) :
    (Value.integer n).address = .ok (BitVec.ofInt 16 n) := by
  rw [Value.address, moved_integer _ _ _ h]
  rfl

/-- The twelve bits of an address that are recorded. -/
theorem toNat_wrap_ofInt (n : Int) : ((Word.wrap (BitVec.ofInt 16 n)).toNat : Int) = n % 4096 := by
  rw [Word.toNat_wrap, Int.natCast_emod, BitVec.toNat_ofInt]
  omega

/-! ### Instructions and steps in any order -/

/-- What can be asked of a state without a host. -/
inductive Move where
  | execute (word address : Word)
  | step
  deriving DecidableEq, Repr

def move (d : Dialect) (s : State) : Move → State
  | .execute w a => s.execute d w a
  | .step => s.step d

def moves (d : Dialect) (s : State) (ms : List Move) : State := ms.foldl (move d) s

/-- A move takes a stopped state to itself, but for the fault record. -/
theorem move_of_raised (h : s.fault.raised = true) (m : Move) :
    (s.move d m).fault.raised = true ∧ SameButFault s (s.move d m) := by
  cases m with
  | execute w a =>
    rcases execute_cases d s w a with ⟨hr, -, hs⟩ | ⟨-, hr, -⟩
    · exact ⟨hr, hs⟩
    · rw [h] at hr
      cases hr
  | step =>
    rw [move, step_of_raised h]
    exact ⟨h, rfl⟩

theorem moves_of_raised (h : s.fault.raised = true) (ms : List Move) :
    (s.moves d ms).fault.raised = true ∧ SameButFault s (s.moves d ms) := by
  induction ms generalizing s with
  | nil => exact ⟨h, rfl⟩
  | cons m rest ih =>
    obtain ⟨hr, hs⟩ := move_of_raised (d := d) h m
    obtain ⟨hr', hs'⟩ := ih hr
    exact ⟨hr', hs.trans hs'⟩

/-- **A fault is atomic and final.** An instruction or a step that fails changes nothing but the
fault record, and no instructions and steps take a stopped state any further. -/
theorem fault_atomic (d : Dialect) (s : State) (hpc : s.pc.toNat ≤ 0xFFF) :
    (∀ w a : Int, -0x80000000 ≤ w ∧ w < 0x80000000 → -0x80000000 ≤ a ∧ a < 0x80000000 →
      ∃ word address,
        (Value.integer w).opcode = .ok word ∧ (Value.integer a).address = .ok address ∧
        ((s.execute d word address).fault.code ≠ 0 →
          ((s.execute d word address).fault.address.toNat : Int) = a % 4096 ∧
            SameButFault s (s.execute d word address)) ∧
        ((s.execute d word address).fault.code = 0 → s.fault.code = 0)) ∧
    (s.fault.code ≠ 0 → s.step d = s) ∧
    (s.fault.code = 0 → (s.step d).fault.code ≠ 0 →
      (s.step d).fault.address = s.pc ∧ SameButFault s (s.step d)) ∧
    (s.fault.code ≠ 0 → ∀ ms : List Move,
      (s.moves d ms).fault.code ≠ 0 ∧ SameButFault s (s.moves d ms)) := by
  simp only [← raised_iff, ← not_raised_iff]
  refine ⟨fun w a hw ha => ?_, step_of_raised, fun h hs => ?_, moves_of_raised⟩
  · refine ⟨_, _, opcode_integer hw, address_integer ha, ?_⟩
    rcases execute_cases d s (BitVec.ofInt 16 w) (BitVec.ofInt 16 a) with
      ⟨hr, haddress, hs⟩ | ⟨hr, hb, -⟩
    · refine ⟨fun _ => ⟨?_, hs⟩, fun hf => ?_⟩
      · rw [haddress, toNat_wrap_ofInt]
      · rw [hr] at hf
        cases hf
    · refine ⟨fun hf => ?_, fun _ => hb⟩
      rw [hr] at hf
      cases hf
  · obtain ⟨haddress, hstep⟩ := step_of_raised_after h hs
    exact ⟨by rw [haddress, Word.wrap_of_lt (by omega)], hstep⟩

/-- A call on a full stack, a return on an empty one and a store into the glyphs fail after they
have changed the state. All of it is taken back, also in a state that has stopped before. -/
theorem fault_atomic_taken_back :
    let s : State := {fresh ⟨0, 0⟩ with
      memory := Memory.fresh.load programStart [0x23, 0x45]
      index := 0xFFE
      registers := Registers.zero.write 0x3 7
      stack := ⟨Vector.replicate 16 0x222, 16⟩
      delayTimer := 9}
    let e : State := {s with stack := ⟨Vector.replicate 16 0x222, 0⟩}
    let stopped : State := {s with fault := ⟨1, 0x234, 0xFFFF⟩}
    let called := s.dispatch .legacy 0x2345
    let returned := e.dispatch .legacy 0x00EE
    let stored := stopped.dispatch .legacy 0xF355
    (s.pc.toNat ≤ 0xFFF ∧ called.stack.pointer = 17 ∧ called.pc = 0x345 ∧ returned.pc = 0x222 ∧
        stopped.memory.read 0x001 = 0x90 ∧ stored.memory.read 0x001 = 7 ∧ stored.index = 0x002) ∧
      s.execute .legacy 0x2345 0x302 = {s with fault := ⟨2, 0x302, 16⟩} ∧
      e.execute .legacy 0x00EE 0x302 = {e with fault := ⟨3, 0x302, 0⟩} ∧
      s.execute .legacy 0xF355 0x302 = {s with fault := ⟨4, 0x302, 0⟩} ∧
      stopped.execute .legacy 0xF355 0x302 = {s with fault := ⟨4, 0x302, 0⟩} ∧
      s.step .legacy = {s with fault := ⟨2, 0x200, 16⟩} ∧ stopped.step .legacy = stopped ∧
      ∀ ms, SameButFault stopped (stopped.moves .legacy ms) := by
  intro s e stopped called returned stored
  have hpc : s.pc.toNat ≤ 0xFFF := by decide
  have taken (u : State) (hu : u.pc.toNat ≤ 0xFFF) (w : Word) {r : FaultRecord}
      (hr : (u.execute .legacy w 0x302).fault = r) (hcode : r.code ≠ 0) :
      u.execute .legacy w 0x302 = {u with fault := r} := by
    have hw := w.isLt
    obtain ⟨hexecute, -⟩ := fault_atomic .legacy u hu
    obtain ⟨word, address, hword, haddress, hfails, -⟩ :=
      hexecute w.toNat 0x302 (by omega) (by decide)
    rw [opcode_integer (by omega), BitVec.ofInt_natCast, BitVec.ofNat_toNat, BitVec.setWidth_eq]
      at hword
    rw [address_integer (by decide)] at haddress
    obtain rfl := Except.ok.inj hword
    obtain rfl := Except.ok.inj haddress
    subst hr
    exact (hfails hcode).2
  obtain ⟨-, -, hstep, -⟩ := fault_atomic .legacy s hpc
  obtain ⟨-, hstays, -, hlatched⟩ := fault_atomic .legacy stopped hpc
  have hfault : (s.step .legacy).fault = ⟨2, 0x200, 16⟩ := by decide +kernel
  have hsame := (hstep (by decide) (by rw [hfault]; decide)).2
  rw [SameButFault, hfault] at hsame
  have hchanged : called.stack.pointer = 17 ∧ called.pc = 0x345 ∧ returned.pc = 0x222 ∧
      stopped.memory.read 0x001 = 0x90 ∧ stored.memory.read 0x001 = 7 ∧ stored.index = 0x002 := by
    decide +kernel
  exact ⟨⟨hpc, hchanged⟩, taken s hpc 0x2345 (by decide +kernel) (by decide),
    taken e hpc 0x00EE (by decide +kernel) (by decide),
    taken s hpc 0xF355 (by decide +kernel) (by decide),
    taken stopped hpc 0xF355 (by decide +kernel) (by decide), hsame, hstays (by decide),
    fun ms => (hlatched (by decide) ms).2⟩

end Chip8.State
