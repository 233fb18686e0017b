import Chip8.Proofs.Transfer
import Chip8.Step

/-!
Instructions that look before they change.

The machine changes first, flags what was wrong, and takes the change back. Proofs go by the other
order: `perform` is the fault for which an instruction does nothing, or else the state after it, and
a write is refused or made (`store`). `AttemptAt` relates the two. An attempt at a fault is any
state at all with the fault flagged, so that taken back it is the state before with the fault on
record (`AttemptAt.rollback_of_error`); an attempt at a state is that state. So a refused write is
one that is made and taken back (`rollback_writeBytes`), every instruction makes an attempt at what
it performs (`attemptAt_attempt`), and so does every word.
-/
namespace Chip8.State

/-- A write by a program, refused as a whole if a place of it is protected. -/
def store (s : State) (values : List Byte) : Except Fault State :=
  match Memory.firstProtected? s.index.toNat values.length with
  | some a => .error (.protectedWrite a)
  | none => .ok {s with memory := s.memory.transfer s.index.toNat values values.length}

/-- What an instruction does, the counter being past it. -/
def perform (d : Dialect) (s : State) : Instruction → Except Fault State
  | .machineCode a => if d.skipsMachineCode then .ok s else .error (.invalidOpcode (a.setWidth 16))
  | .ret =>
    let p := s.stack.pop
    if p.underflow then .error .stackUnderflow
    else .ok {s with stack := p.stack, pc := p.address}
  | .call a =>
    let (stack, full) := s.stack.push s.pc
    if full then .error .stackOverflow else .ok {s with stack := stack, pc := a.setWidth 16}
  | .digits x => s.store (decimalDigits (s.v x))
  | .store x => (s.store (s.registers.toList.take (x.toNat + 1))).map (afterMove d · x)
  | i => .ok (s.attempt d i)

/-- What a word does. A word that spells no instruction is at fault. -/
def outcome (d : Dialect) (s : State) (w : Word) : Except Fault State :=
  match Instruction.decode w with
  | some i => s.perform d i
  | none => .error (.invalidOpcode w)

/-- What an attempt may leave: the state it was at, or any state with the fault flagged. -/
inductive AttemptAt : Except Fault State → State → Prop where
  | done (t : State) : AttemptAt (.ok t) t
  | flagged (f : Fault) (t : State) : AttemptAt (.error f) (t.flag f)

variable {d : Dialect} {s t u : State} {f : Fault}

/-! ### Attempts taken back -/

theorem rollback_of_raised (h : t.fault.raised = true) (address : Word) :
    s.rollback t address = {s with fault := {t.fault with address := address.wrap}} :=
  if_pos h

theorem rollback_of_not_raised (h : t.fault.raised = false) (address : Word) :
    s.rollback t address = t :=
  if_neg (Bool.eq_false_iff.1 h)

theorem raised_flag (t : State) (f : Fault) : (t.flag f).fault.raised = true := by
  simp [flag, FaultRecord.raised, f.code_ne_zero]

/-- Whatever an attempt changed before it was flagged, the fault is all that is left. -/
theorem AttemptAt.rollback_of_error (h : AttemptAt (.error f) t) (address : Word) :
    s.rollback t address = {s with fault := FaultRecord.of f address} := by
  cases h with
  | flagged f u => exact rollback_of_raised (raised_flag u f) address

theorem AttemptAt.eq_of_ok (h : AttemptAt (.ok u) t) : t = u := by
  cases h
  rfl

/-! ### Writes -/

theorem attemptAt_writeBytes (s : State) (values : List Byte) :
    AttemptAt (s.store values) (s.writeBytes s.index.toNat values values.length) := by
  rw [store, writeBytes, Int.toNat_natCast, Nat.min_self]
  cases Memory.firstProtected? s.index.toNat values.length with
  | some a => exact .flagged _ _
  | none => exact .done _

/-- A program's write is made in any case, and taken back if it is flagged. -/
theorem rollback_writeBytes (hr : s.fault.raised = false) (values : List Byte) (address : Word) :
    s.rollback (s.writeBytes s.index.toNat values values.length) address =
      match s.store values with
      | .ok t => t
      | .error f => {s with fault := FaultRecord.of f address} := by
  have hattempt := attemptAt_writeBytes s values
  cases hs : s.store values with
  | error f =>
    rw [hs] at hattempt
    exact hattempt.rollback_of_error address
  | ok t =>
    rw [hs] at hattempt
    have ht : t.fault = s.fault := by
      rw [store] at hs
      split at hs <;> cases hs
      rfl
    rw [hattempt.eq_of_ok]
    exact rollback_of_not_raised (by rw [ht, hr]) address

/-- Of the values past the count nothing is seen. -/
theorem writeBytes_take (s : State) (start : Int) {values : List Byte} {count : Nat}
    (hlength : values.length ≤ 4096) (hcount : count ≤ values.length) :
    s.writeBytes start values count =
      s.writeBytes start (values.take count) (values.take count).length := by
  have hlen : (values.take count).length = count := List.length_take_of_le hcount
  rw [writeBytes, writeBytes, hlen, Memory.transfer_take hlength, Int.toNat_natCast,
    Nat.min_eq_left hcount, Nat.min_self]

/-! ### Instructions and words -/

theorem attemptAt_failIf (t : State) (b : Bool) (f : Fault) :
    AttemptAt (if b then .error f else .ok t) (t.failIf b f) := by
  cases b
  · exact .done t
  · exact .flagged f t

theorem afterMove_flag (d : Dialect) (t : State) (f : Fault) (x : Nibble) :
    (t.flag f).afterMove d x = (t.afterMove d x).flag f := by
  rw [afterMove, afterMove]
  split <;> rfl

theorem AttemptAt.afterMove {o : Except Fault State} (h : AttemptAt o t) (d : Dialect)
    (x : Nibble) :
    AttemptAt (o.map (State.afterMove d · x)) (t.afterMove d x) := by
  cases h with
  | done t => exact .done _
  | flagged f t =>
    rw [afterMove_flag]
    exact .flagged f _

theorem attemptAt_attempt (d : Dialect) (s : State) (i : Instruction) :
    AttemptAt (s.perform d i) (s.attempt d i) := by
  cases i with
  | machineCode a =>
    rw [perform, attempt]
    cases d.skipsMachineCode
    · exact .flagged _ s
    · exact .done s
  | ret => exact attemptAt_failIf _ _ _
  | call a => exact attemptAt_failIf _ _ _
  | digits x => exact attemptAt_writeBytes s _
  | store x =>
    have hx := x.isLt
    have hlength : s.registers.toList.length = 16 := Vector.length_toList
    rw [perform, attempt, writeBytes_take s _ (by omega) (by omega)]
    exact (attemptAt_writeBytes s _).afterMove d x
  | _ => exact .done _

theorem attemptAt_dispatch (d : Dialect) (s : State) (w : Word) :
    AttemptAt (s.outcome d w) (s.dispatch d w) := by
  rw [outcome, dispatch]
  cases Instruction.decode w with
  | some i => exact attemptAt_attempt d s i
  | none => exact .flagged _ s

end Chip8.State
