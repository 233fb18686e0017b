import Chip8.Proofs.Atomicity
import Chip8.Proofs.Opcode

/-!
Arithmetic on two registers.

The machine computes in bytes, and what does not fit a byte goes to the flag register. Over numbers
this is said by `Alu.leaves?`, what an operation leaves as its flag, and by `Alu.Exact`, the
equation that ties the result and the flag to the operands. Both are about operands, not registers
(`map_written?`, `exact_result`); which of the two writes a register sees is said once for all
operations (`v_operate`). The main result `arithmetic_exact` puts them together for all registers,
also if target, source and flag register are the same.
-/
namespace Chip8

namespace Alu

/-- The number that an operation on `a` and `b` leaves in the flag register, if it leaves one. -/
def leaves? (d : Dialect) (a b : Nat) : Alu → Option Nat
  | .copy => none
  | .or | .and | .xor => if d.logicClearsFlag then some 0 else none
  | .add => some (if 255 < a + b then 1 else 0)
  | .sub => some (if b ≤ a then 1 else 0)
  | .shiftRight => some (a % 2)
  | .subFrom => some (if a ≤ b then 1 else 0)
  | .shiftLeft => some (a / 128)

/-- The result `r` of an operation on `a` and `b` with its flag `f` loses nothing. -/
def Exact (a b r f : Nat) : Alu → Prop
  | .copy => r = b
  | .or => r = a ||| b
  | .and => r = a &&& b
  | .xor => r = a ^^^ b
  | .add => r + 256 * f = a + b
  | .sub => (r : Int) = a - b + 256 * (1 - f)
  | .shiftRight => 2 * r + f = a
  | .subFrom => (r : Int) = b - a + 256 * (1 - f)
  | .shiftLeft => r + 256 * f = 2 * a

variable {d : Dialect} {a b : Byte} {op : Alu}

/-! ### Operands -/

/-- The flag that an operation writes in a dialect. -/
def written? (d : Dialect) (a b : Byte) (op : Alu) : Option Bool :=
  if op.isLogic && d.logicClearsFlag then some false else op.flag? a b

theorem toNat_flagByte (f : Bool) : (flagByte f).toNat = f.toNat := by
  cases f <;> rfl

theorem toNat_decide (p : Prop) [Decidable p] : (decide p).toNat = if p then 1 else 0 := by
  by_cases h : p <;> simp [h]

theorem toNat_msb (a : Byte) : a.msb.toNat = a.toNat / 128 := by
  have hbit : (a.getLsbD 7).toNat = a.toNat / 2 ^ 7 % 2 := Nat.toNat_testBit a.toNat 7
  have := a.isLt
  rw [BitVec.msb_eq_getLsbD_last, hbit]
  omega

theorem toNat_getLsbD_zero (a : Byte) : (a.getLsbD 0).toNat = a.toNat % 2 := by
  have hbit : (a.getLsbD 0).toNat = a.toNat / 2 ^ 0 % 2 := Nat.toNat_testBit a.toNat 0
  rw [hbit, Nat.pow_zero, Nat.div_one]

theorem map_written? (d : Dialect) (a b : Byte) (op : Alu) :
    (op.written? d a b).map Bool.toNat = op.leaves? d a.toNat b.toNat := by
  cases op with
  | copy => rfl
  | or | and | xor => cases hd : d.logicClearsFlag <;> simp [written?, leaves?, isLogic, flag?, hd]
  | add => simp [written?, leaves?, isLogic, flag?, toNat_decide]
  | sub | subFrom => simp [written?, leaves?, isLogic, flag?, BitVec.le_def, toNat_decide]
  | shiftRight => exact congrArg some (toNat_getLsbD_zero a)
  | shiftLeft => exact congrArg some (toNat_msb a)

/-- The bytes of an operation are exact with the flag that it leaves. -/
theorem exact_result {f : Nat} (h : ∀ g ∈ op.leaves? d a.toNat b.toNat, f = g) :
    op.Exact a.toNat b.toNat (op.result a b).toNat f := by
  have ha := a.isLt
  have hb := b.isLt
  cases op with
  | copy | or | and | xor => simp [Exact, result]
  | add =>
    have hf := h _ rfl
    simp only [Exact, result, BitVec.toNat_add]
    split at hf <;> omega
  | sub | subFrom =>
    have hf := h _ rfl
    simp only [Exact, result, BitVec.toNat_sub]
    split at hf <;> omega
  | shiftRight =>
    have hf := h _ rfl
    simp only [Exact, result, BitVec.toNat_ushiftRight, Nat.shiftRight_eq_div_pow]
    omega
  | shiftLeft =>
    have hf := h _ rfl
    simp only [Exact, result, BitVec.toNat_shiftLeft, Nat.shiftLeft_eq]
    omega

end Alu

namespace State
variable {d : Dialect} {s : State} {op : Alu} {x y : Nibble}

/-! ### Registers -/

/-- The value that an operation takes for that of its target. -/
def operand (d : Dialect) (s : State) (op : Alu) (x y : Nibble) : Byte :=
  if op.isShift && d.shiftTakesVY then s.v y else s.v x

/-- An operation writes its result and then its flag, if there is one. -/
theorem operate_eq_elim (d : Dialect) (s : State) (op : Alu) (x y : Nibble) :
    let a := s.operand d op x y
    let t := s.setV x (op.result a (s.v y))
    s.operate d op x y =
      (op.written? d a (s.v y)).elim t fun f => t.setV flagRegister (flagByte f) := by
  intro a t
  obtain ⟨written, hwritten⟩ : ∃ f, op.written? d a (s.v y) = f := ⟨_, rfl⟩
  rw [hwritten]
  simp only [Alu.written?, a, operand] at hwritten
  simp only [operate, hwritten]
  cases written <;> rfl

/-- What a register holds after an operation. In the flag register the flag wins. -/
theorem v_operate (d : Dialect) (s : State) (op : Alu) (x y r : Nibble) :
    let a := s.operand d op x y
    (s.operate d op x y).v r =
      ((if flagRegister = r then (op.written? d a (s.v y)).map flagByte else none).getD
        (if x = r then op.result a (s.v y) else s.v r)) := by
  intro a
  rw [operate_eq_elim]
  cases op.written? d a (s.v y) with
  | none => rw [Option.elim_none, v_setV, Option.map_none, ite_self, Option.getD_none]
  | some f =>
    rw [Option.elim_some, v_setV, v_setV, Option.map_some]
    split <;> rfl

theorem toNat_operand (d : Dialect) (s : State) (op : Alu) (x y : Nibble) :
    (s.operand d op x y).toNat =
      if (op = .shiftRight ∨ op = .shiftLeft) ∧ d.shiftTakesVY then (s.v y).toNat
        else (s.v x).toNat := by
  cases op <;> cases hd : d.shiftTakesVY <;> simp [operand, Alu.isShift, hd]

theorem toNat_flag_operate {f : Nat}
    (h : f ∈ op.leaves? d (s.operand d op x y).toNat (s.v y).toNat) :
    ((s.operate d op x y).v flagRegister).toNat = f := by
  rw [← Alu.map_written?] at h
  obtain ⟨g, hg, rfl⟩ := Option.map_eq_some_iff.1 h
  rw [v_operate, if_pos rfl, hg, Option.map_some, Option.getD_some, Alu.toNat_flagByte]

theorem v_operate_of_free {r : Nibble}
    (h : r ≠ flagRegister ∨ op.leaves? d (s.operand d op x y).toNat (s.v y).toNat = none) :
    (s.operate d op x y).v r =
      if x = r then op.result (s.operand d op x y) (s.v y) else s.v r := by
  rw [v_operate]
  rcases h with hr | hnone
  · rw [if_neg (Ne.symm hr), Option.getD_none]
  · rw [← Alu.map_written?, Option.map_eq_none_iff] at hnone
    rw [hnone, Option.map_none, ite_self, Option.getD_none]

/-- **Arithmetic is exact, whichever registers it uses.** `8XY_` leaves in `VF` the flag of its
operands as they were before, and in `VX` the exact result unless the flag is written over it. -/
theorem arithmetic_exact (d : Dialect) (s : State) (op : Alu) (x y : Nibble) (address : Word)
    (hf : s.fault.code = 0) :
    let b := (s.v y).toNat
    let a := if (op = .shiftRight ∨ op = .shiftLeft) ∧ d.shiftTakesVY then b else (s.v x).toNat
    let t := s.execute d (Instruction.encode (.alu op x y)) address
    (∀ f ∈ op.leaves? d a b, (t.v flagRegister).toNat = f) ∧
      (x ≠ flagRegister ∨ op.leaves? d a b = none →
        op.Exact a b (t.v x).toNat (t.v flagRegister).toNat) ∧
      (∀ r, r ≠ x → r ≠ flagRegister ∨ op.leaves? d a b = none → t.v r = s.v r) ∧
      t = {s with registers := t.registers} := by
  intro b a t
  have ht : t = s.operate d op x y := by
    have ho : s.outcome d (Instruction.encode (.alu op x y)) = .ok (s.operate d op x y) :=
      outcome_of_decode (Instruction.decode_encode (by simp [Instruction.Shadowed]))
    exact execute_of_ok ho (not_raised_iff.2 hf) address
  have ha : (s.operand d op x y).toNat = a := toNat_operand d s op x y
  have hflag : ∀ f ∈ op.leaves? d a b, (t.v flagRegister).toNat = f := by
    intro f h
    rw [ht]
    exact toNat_flag_operate (by rw [ha]; exact h)
  refine ⟨hflag, fun h => ?_, fun r hr h => ?_, ?_⟩
  · have hx : t.v x = op.result (s.operand d op x y) (s.v y) := by
      rw [ht, v_operate_of_free (by rw [ha]; exact h), if_pos rfl]
    rw [hx, ← ha]
    exact Alu.exact_result (by rw [ha]; exact hflag)
  · rw [ht, v_operate_of_free (by rw [ha]; exact h), if_neg (Ne.symm hr)]
  · rw [ht]
    exact operate_eq d s op x y

/-- A sum of the flag register with itself ends in its carry. A difference reads the flag register
before the borrow goes there. -/
theorem arithmetic_exact_flag :
    let s : State := {fresh ⟨0, 0⟩ with registers := (Registers.zero.write 0x2 100).write 0xF 200}
    let t := s.execute .modern 0x8FF4 0x200
    let u := s.execute .modern 0x82F5 0x200
    s.fault.code = 0 ∧ ((t.v 0xF).toNat = 1 ∧ t.v 0x2 = s.v 0x2 ∧ t.fault.code = 0) ∧
      (u.v 0x2).toNat = 156 ∧ (u.v 0xF).toNat = 0 ∧ u = {s with registers := u.registers} := by
  intro s t u
  have hf : s.fault.code = 0 := rfl
  obtain ⟨hcarry, -, hkept, hsum⟩ := arithmetic_exact .modern s .add 0xF 0xF 0x200 hf
  obtain ⟨hborrow, hexact, -, hdifference⟩ := arithmetic_exact .modern s .sub 0x2 0xF 0x200 hf
  have hzero : (u.v 0xF).toNat = 0 := hborrow 0 (by decide)
  have hresult : ((u.v 0x2).toNat : Int) = 100 - 200 + 256 * (1 - (u.v 0xF).toNat) :=
    hexact (.inl (by decide))
  refine ⟨hf, ⟨hcarry 1 (by decide), hkept 0x2 (by decide) (.inl (by decide)), ?_⟩, ?_, hzero,
    hdifference⟩
  · exact congrArg (fun s : State => s.fault.code) hsum
  · rw [hzero] at hresult
    omega

end State
end Chip8
