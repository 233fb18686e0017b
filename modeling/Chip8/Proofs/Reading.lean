import Chip8.Proofs.Atomicity
import Chip8.Proofs.Dispatch
import Chip8.Proofs.Opcode

/-!
Two readings of an integer.

What executes cuts an integer of thirty-two bits to a word and finds the number of the word in
tables. What lists looks the integer up as it is. `Dispatch.number?_eq` says that the tables hold
the number of the instruction that a word spells. The main result `readings_agree` is that the two
readings come to the same, and that an integer which only ends in the word of one of two
instructions is the exception.
-/
namespace Chip8

namespace Dispatch
open Table

/-- The number of an instruction, whatever its operands. -/
def number : Instruction → Nat
  | .machineCode _ => 0
  | .clear => 1
  | .ret => 2
  | .jump _ => 3
  | .call _ => 4
  | .skip (.equals _ _) => 5
  | .skip (.differs _ _) => 6
  | .skip (.same _ _) => 7
  | .load _ _ => 8
  | .add _ _ => 9
  | .alu .copy _ _ => 10
  | .alu .or _ _ => 11
  | .alu .and _ _ => 12
  | .alu .xor _ _ => 13
  | .alu .add _ _ => 14
  | .alu .sub _ _ => 15
  | .alu .shiftRight _ _ => 16
  | .alu .subFrom _ _ => 17
  | .alu .shiftLeft _ _ => 18
  | .skip (.distinct _ _) => 19
  | .setIndex _ => 20
  | .jumpOffset _ => 21
  | .random _ _ => 22
  | .draw _ _ _ => 23
  | .skip (.keyDown _) => 24
  | .skip (.keyUp _) => 25
  | .readDelay _ => 26
  | .waitKey _ => 27
  | .setDelay _ => 28
  | .setSound _ => 29
  | .addIndex _ => 30
  | .glyph _ => 31
  | .digits _ => 32
  | .store _ => 33
  | .restore _ => 34

/-- The number of what was read; what is no instruction has that of data. -/
def numberOf (i : Option Instruction) : Nat := i.elim data number

/-- What to execute stands in the order of the numbers. -/
theorem numbers_executors (w : Word) : (executors w).toList.map numberOf = List.range 36 := rfl

theorem numberOf_of_executor {w : Word} {k : Nat} {i : Option Instruction}
    (h : get? (executors w) k = some i) : numberOf i = k := by
  have hk : k < 36 := by
    rw [get?] at h
    split at h
    · omega
    · cases h
  have hentry := congrArg (·[k]?) (numbers_executors w)
  rw [get?_natCast hk] at h
  simpa [hk, Option.some.inj h] using hentry

/-- The tables have the number of the instruction that a word spells, and that of data for data. -/
theorem number?_eq (w : Word) : number? w = some (numberOf (Instruction.decode w)) := by
  obtain ⟨k, hk, hi⟩ := Option.bind_eq_some_iff.1 (executor_number w)
  rw [hk, numberOf_of_executor hi]

end Dispatch

open Instruction (Disguised of_disguised ofInt?_of_not_disguised)

/-- **The two readings of an integer agree,** that by the tables and that of the listing, unless the
low sixteen bits of a longer integer are `00E0` or `00EE`. -/
theorem readings_agree (k : Int) (h : -0x80000000 ≤ k ∧ k < 0x80000000) :
    ∃ w : Word, (Value.integer k).opcode = .ok w ∧
      ((w.toNat : Int) = k % 0x10000 ∧ w.toNat = 4096 * w.family.toNat + w.nnn.toNat ∧
        w.nnn.toNat = 256 * w.x.toNat + w.nn.toNat ∧ w.nn.toNat = 16 * w.y.toNat + w.n.toNat ∧
        w.family.toNat ≤ 15 ∧ w.x.toNat ≤ 15 ∧ w.y.toNat ≤ 15 ∧ w.n.toNat ≤ 15) ∧
      Dispatch.number? w = some (Dispatch.numberOf (Instruction.decode w)) ∧
      (Dispatch.number? w = some (Dispatch.numberOf (Instruction.ofInt? k)) ↔ ¬ Disguised k) ∧
      (¬ Disguised k → Instruction.decode w = Instruction.ofInt? k) ∧
      (Disguised k →
        Instruction.decode w = some (if k % 0x10000 = 0x00E0 then .clear else .ret) ∧
          ∃ a, Instruction.ofInt? k = some (.machineCode a)) := by
  obtain ⟨w, hw⟩ : ∃ w : Word, BitVec.ofInt 16 k = w := ⟨_, rfl⟩
  have hopcode : (Value.integer k).opcode = .ok w := by rw [← hw, State.opcode_integer h]
  have hfields : w.family.toNat ≤ 15 ∧ w.x.toNat ≤ 15 ∧ w.y.toNat ≤ 15 ∧ w.n.toNat ≤ 15 :=
    ⟨Nat.le_of_lt_succ w.family.isLt, Nat.le_of_lt_succ w.x.isLt, Nat.le_of_lt_succ w.y.isLt,
      Nat.le_of_lt_succ w.n.isLt⟩
  refine ⟨w, hopcode, ⟨Instruction.toNat_of_ofInt hw, w.toNat_eq_family, w.toNat_nnn, w.toNat_nn,
    hfields⟩, Dispatch.number?_eq w, ?_, fun hk => (ofInt?_of_not_disguised hw hk).symm,
    fun hk => ?_⟩
  · rw [Dispatch.number?_eq]
    constructor
    · intro hnumber hk
      obtain ⟨hdecode, hlisted⟩ := of_disguised hw hk
      rw [hdecode, hlisted] at hnumber
      split at hnumber <;> cases hnumber
    · intro hk
      rw [ofInt?_of_not_disguised hw hk]
  · obtain ⟨hdecode, hlisted⟩ := of_disguised hw hk
    exact ⟨hdecode, _, hlisted⟩

/-- A negative integer whose low sixteen bits return, and one that is data with all its bits set. -/
theorem readings_agree_negative :
    let k : Int := -0xFF12
    (-0x80000000 ≤ k ∧ k < 0x80000000) ∧ Disguised k ∧
      (Value.integer k).opcode = .ok 0x00EE ∧ Dispatch.number? 0x00EE = some 2 ∧
      Instruction.decode 0x00EE = some .ret ∧
      (∃ a, Instruction.ofInt? k = some (.machineCode a)) ∧
      (Value.integer (-1)).opcode = .ok 0xFFFF ∧ Dispatch.number? 0xFFFF = some 35 ∧
      Instruction.ofInt? (-1) = none := by
  intro k
  have hk : -0x80000000 ≤ k ∧ k < 0x80000000 := by decide
  have hdisguised : Disguised k := by
    refine ⟨.inl ?_, .inr ?_⟩ <;> decide
  have hplain : ¬ Disguised (-1) := by
    rintro ⟨-, hlow | hlow⟩ <;> revert hlow <;> decide
  obtain ⟨w, hw, ⟨hlow, -⟩, hnumber, -, -, hexcept⟩ := readings_agree k hk
  obtain ⟨hdecode, hlisted⟩ := hexcept hdisguised
  have hword : w = 0x00EE := BitVec.eq_of_toNat_eq (Int.ofNat.inj hlow)
  subst hword
  obtain ⟨v, hv, ⟨hall, -⟩, hdata, -, hagree, -⟩ := readings_agree (-1) (by decide)
  have hones : v = 0xFFFF := BitVec.eq_of_toNat_eq (Int.ofNat.inj hall)
  subst hones
  exact ⟨hk, hdisguised, hw, hnumber, hdecode, hlisted, hv, hdata, (hagree hplain).symm⟩

end Chip8
