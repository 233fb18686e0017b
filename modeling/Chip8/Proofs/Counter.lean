import Chip8.Proofs.FaultCondition
import Chip8.Proofs.WellFormed

/-!
Where the counter goes.

`leadsTo` says it by the fields of the word under the counter: a word jumps, returns, stays, skips
or goes on. It is compared with what the instructions do in two parts. An instruction without the
counter in its footprint leaves it past the word (`leadsTo_of_not_mem`), and the few others set it
(`pc_of_outcome`). The main result `counter_law` is that a step which does not fail goes there, that
no step leaves memory, and that of two words with opposite conditions one skips and the other does
not.
-/
namespace Chip8

/-- The word at a place of memory, its second byte wrapping at the end. -/
def Memory.wordFrom (m : Memory) (a : Nat) : Word :=
  Word.ofBytes (m.read (place a 0)) (m.read (place a 1))

/-- Two words with the same operands, one of which skips if the other does not. -/
inductive Opposite : Word → Word → Prop
  | byte (x : Nibble) (n : Byte) :
    Opposite (Instruction.withByte 0x3 x n) (Instruction.withByte 0x4 x n)
  | registers (x y : Nibble) :
    Opposite (Instruction.withPair 0x5 x y 0x0) (Instruction.withPair 0x9 x y 0x0)
  | key (x : Nibble) : Opposite (Instruction.withByte 0xE x 0x9E) (Instruction.withByte 0xE x 0xA1)

namespace State

/-- Whether the key that the low nibble of a register names is down. -/
def keyOf (s : State) (x : Nibble) : Bool := s.keypad.get (Fin.ofNat 16 (s.v x).toNat)

/-- Whether a word skips the one after it. -/
def skips (s : State) (w : Word) : Bool :=
  w.family = 0x3 && s.v w.x = w.nn || w.family = 0x4 && s.v w.x ≠ w.nn ||
    w.family = 0x5 && w.n = 0x0 && s.v w.x = s.v w.y ||
    w.family = 0x9 && w.n = 0x0 && s.v w.x ≠ s.v w.y ||
    w.family = 0xE && w.nn = 0x9E && s.keyOf w.x || w.family = 0xE && w.nn = 0xA1 && !s.keyOf w.x

/-- Where the word under the counter leads. A return leads to the last address on the stack. -/
def leadsTo (d : Dialect) (s : State) (w : Word) : Nat :=
  if w.family = 0x1 ∨ w.family = 0x2 then w.nnn.toNat
  else if w.family = 0xB then
    (w.nnn.toNat + (s.v (if d.jumpTakesVX then w.x else 0x0)).toNat) % 4096
  else if w.family = 0xF ∧ w.nn = 0x0A then s.pc.toNat
  else if s.skips w then (s.pc.toNat + 4) % 4096
  else if w = 0x00EE then (s.stack.slots.toList.getD (s.stack.pointer.toNat - 1) 0).toNat
  else (s.pc.toNat + 2) % 4096

variable {d : Dialect} {s t : State} {w : Word} {i : Instruction}

/-! ### What the fields say of an instruction -/

theorem encode_ne (hi : ¬ Instruction.Shadowed i) (hret : i ≠ .ret) :
    Instruction.encode i ≠ 0x00EE := by
  intro hw
  have hdecode := Instruction.decode_encode hi
  rw [hw] at hdecode
  exact hret (Option.some.inj hdecode).symm

theorem keyOf_eq (s : State) (x : Nibble) : s.keyOf x = s.keypad.isDown ((s.v x).setWidth 4) := by
  simp only [keyOf, Keypad.isDown, BitVec.toNat_setWidth]
  rfl

theorem skips_encode (s : State) (c : Condition) :
    s.skips (Instruction.encode (.skip c)) = s.holds c := by
  rw [Bool.eq_iff_iff]
  cases c <;>
    simp [skips, holds, keyOf_eq, Instruction.encode, Instruction.fields_withByte,
      Instruction.fields_withPair]

/-- An instruction that does not write the counter leads past its word. -/
theorem leadsTo_of_not_mem (hi : ¬ Instruction.Shadowed i) (hp : .counter ∉ i.footprint d) :
    s.leadsTo d (Instruction.encode i) = (s.pc.toNat + 2) % 4096 := by
  have hret : Instruction.encode i ≠ 0x00EE :=
    encode_ne hi fun h => hp (by simp [h, Instruction.footprint])
  unfold leadsTo
  rw [if_neg hret]
  cases i with
  | jump a | call a | ret | jumpOffset a | skip c | waitKey x => simp [Instruction.footprint] at hp
  | clear => rfl
  | machineCode a | setIndex a =>
    simp [skips, Instruction.encode, Instruction.family_withAddress]
  | alu op x y | draw x y n => simp [skips, Instruction.encode, Instruction.fields_withPair]
  | _ => simp [skips, Instruction.encode, Instruction.fields_withByte]

theorem leadsTo_skip (s : State) (c : Condition) :
    s.leadsTo d (Instruction.encode (.skip c)) =
      if s.holds c then (s.pc.toNat + 4) % 4096 else (s.pc.toNat + 2) % 4096 := by
  have hret := encode_ne (i := .skip c) (by simp [Instruction.Shadowed]) (by simp)
  rw [← skips_encode]
  unfold leadsTo
  rw [if_neg hret]
  cases c <;> simp [Instruction.encode, Instruction.fields_withByte, Instruction.fields_withPair]

theorem leadsTo_jump (s : State) (a : Address) :
    s.leadsTo d (Instruction.encode (.jump a)) = a.toNat := by
  simp [leadsTo, Instruction.encode, Instruction.family_withAddress, Instruction.nnn_withAddress]

theorem leadsTo_call (s : State) (a : Address) :
    s.leadsTo d (Instruction.encode (.call a)) = a.toNat := by
  simp [leadsTo, Instruction.encode, Instruction.family_withAddress, Instruction.nnn_withAddress]

theorem leadsTo_jumpOffset (s : State) (a : Address) :
    s.leadsTo d (Instruction.encode (.jumpOffset a)) =
      (a.toNat + (s.v (if d.jumpTakesVX then a.extractLsb' 8 4 else 0x0)).toNat) % 4096 := by
  simp [leadsTo, Instruction.encode, Instruction.family_withAddress, Instruction.nnn_withAddress,
    Instruction.x_withAddress]

theorem leadsTo_waitKey (s : State) (x : Nibble) :
    s.leadsTo d (Instruction.encode (.waitKey x)) = s.pc.toNat := by
  simp [leadsTo, Instruction.encode, Instruction.fields_withByte]

/-! ### What the instructions do -/

theorem toNat_address (a : Address) : (a.setWidth 16).toNat = a.toNat :=
  BitVec.toNat_setWidth_of_le (by decide)

theorem toNat_byte (b : Byte) : (b.setWidth 16).toNat = b.toNat :=
  BitVec.toNat_setWidth_of_le (by decide)

theorem toNat_wrap_add_two_two (a : Word) :
    (Word.wrap (Word.wrap (a + 2) + 2)).toNat = (a.toNat + 4) % 4096 := by
  rw [Word.toNat_wrap_add, Word.toNat_wrap_add]
  simp only [BitVec.ofNat_eq_ofNat, BitVec.toNat_ofNat]
  omega

theorem pc_skipIf_fetch (s : State) (b : Bool) :
    (s.fetch.1.skipIf b).pc.toNat =
      if b then (s.pc.toNat + 4) % 4096 else (s.pc.toNat + 2) % 4096 := by
  cases b with
  | false => exact Word.toNat_wrap_add s.pc 2
  | true => exact toNat_wrap_add_two_two s.pc

/-- A stack that is not empty gives its last address. -/
theorem address_pop {k : Stack} (h : ¬ k.pop.underflow = true) (hle : k.pointer ≤ 16) :
    k.pop.address = k.slots.toList.getD (k.pointer.toNat - 1) 0 := by
  simp only [Stack.pop, decide_eq_true_eq] at h
  have htop : min (max (k.pointer - 1) 0).toNat 15 = k.pointer.toNat - 1 := by omega
  simp only [Stack.pop, htop]
  have hlength : k.pointer.toNat - 1 < k.slots.toList.length := by
    rw [Vector.length_toList]
    omega
  rw [List.getD_eq_getElem?_getD, List.getElem?_eq_getElem hlength, Vector.getElem_toList]
  rfl

theorem pc_of_outcome (hpc : s.pc.toNat ≤ 0xFFF) (hsp : s.stack.pointer ≤ 16)
    (h : s.fetch.1.outcome d w = .ok t) : t.pc.toNat = s.leadsTo d w := by
  obtain ⟨i, hi, hperform⟩ := outcome_eq_ok_iff.1 h
  obtain ⟨rfl, hshadow⟩ := Instruction.decode_eq_some_iff.1 hi
  by_cases hp : .counter ∈ i.footprint d
  case neg =>
    have hkept : t.pc = (s.pc + 2).wrap := perform_kept hperform hp
    rw [leadsTo_of_not_mem hshadow hp, hkept]
    exact Word.toNat_wrap_add s.pc 2
  rcases Instruction.writtenBy_of_mem hp with
    rfl | ⟨a, rfl⟩ | ⟨a, rfl⟩ | ⟨c, rfl⟩ | ⟨a, rfl⟩ | ⟨x, rfl⟩
  · simp only [perform] at hperform
    split at hperform
    · cases hperform
    · next hpop =>
      cases hperform
      exact congrArg BitVec.toNat (address_pop hpop hsp)
  · simp only [perform] at hperform
    split at hperform <;> cases hperform
    rw [leadsTo_call]
    exact toNat_address a
  · cases hperform
    rw [leadsTo_jump]
    exact toNat_address a
  · cases hperform
    rw [leadsTo_skip]
    exact pc_skipIf_fetch s (s.holds c)
  · cases hperform
    rw [leadsTo_jumpOffset, ← toNat_address, ← toNat_byte]
    exact Word.toNat_wrap_add _ _
  · cases hperform
    rw [leadsTo_waitKey]
    exact congrArg BitVec.toNat (wrap_sub_wrap_add (a := s.pc) (Nat.lt_succ_of_le hpc))

/-- No word leads out of memory. -/
theorem leadsTo_le (d : Dialect) (w : Word) (hpc : s.pc.toNat ≤ 0xFFF)
    (hslots : ∀ k : Fin 16, s.stack.slots[k].toNat ≤ 0xFFF) : s.leadsTo d w ≤ 0xFFF := by
  have hslot (k : Nat) : (s.stack.slots.toList.getD k 0).toNat ≤ 0xFFF := by
    rw [List.getD_eq_getElem?_getD]
    by_cases hk : k < 16
    · simpa [hk] using hslots ⟨k, hk⟩
    · simp [hk]
  have htarget := w.nnn.isLt
  unfold leadsTo
  split
  · omega
  split
  · omega
  split
  · exact hpc
  split
  · omega
  split
  · exact hslot _
  · omega

/-! ### Words with opposite conditions -/

/-- Opposite words are skips, and in every state the condition of just one of them holds. -/
theorem exists_of_opposite {u v : Word} (h : Opposite u v) :
    ∃ c c', u = Instruction.encode (.skip c) ∧ v = Instruction.encode (.skip c') ∧
      ∀ s : State, s.holds c' = !s.holds c := by
  cases h with
  | byte x n => exact ⟨.equals x n, .differs x n, rfl, rfl, fun s => rfl⟩
  | registers x y => exact ⟨.same x y, .distinct x y, rfl, rfl, fun s => rfl⟩
  | key x => exact ⟨.keyDown x, .keyUp x, rfl, rfl, fun s => rfl⟩

theorem step_skip {c : Condition} (hr : s.fault.raised = false) (hk : s.waiting = false)
    (hw : s.wordAt s.pc = Instruction.encode (.skip c)) :
    (s.step d).fault = s.fault ∧
      (s.step d).pc.toNat = if s.holds c then (s.pc.toNat + 4) % 4096 else (s.pc.toNat + 2) % 4096 := by
  rw [step_of_encode hr hk hw (by simp [Instruction.Shadowed]) rfl]
  refine ⟨?_, pc_skipIf_fetch s (s.holds c)⟩
  rw [attempt, skipIf_eq]
  rfl

theorem wordAt_pc (m : Memory) (hpc : s.pc.toNat ≤ 0xFFF) :
    ({s with memory := m} : State).wordAt s.pc = m.wordFrom s.pc.toNat :=
  wordAt_of_lt (s := {s with memory := m}) (Nat.lt_succ_of_le hpc)

/-- Of two memories with opposite words under the counter, one takes the machine over the next
instruction and the other to it. -/
theorem step_opposite {m m' : Memory} (hr : s.fault.raised = false) (hk : s.waiting = false)
    (hpc : s.pc.toNat ≤ 0xFFF) (h : Opposite (m.wordFrom s.pc.toNat) (m'.wordFrom s.pc.toNat)) :
    let t := ({s with memory := m} : State).step d
    let t' := ({s with memory := m'} : State).step d
    t.fault = s.fault ∧ t'.fault = s.fault ∧
      (t.pc.toNat = (s.pc.toNat + 4) % 4096 ∧ t'.pc.toNat = (s.pc.toNat + 2) % 4096 ∨
        t.pc.toNat = (s.pc.toNat + 2) % 4096 ∧ t'.pc.toNat = (s.pc.toNat + 4) % 4096) := by
  intro t t'
  obtain ⟨c, c', hc, hc', hholds⟩ := exists_of_opposite h
  rw [← wordAt_pc m hpc] at hc
  rw [← wordAt_pc m' hpc] at hc'
  obtain ⟨hfault, ht⟩ := step_skip (d := d) (s := {s with memory := m}) hr hk hc
  obtain ⟨hfault', ht'⟩ := step_skip (d := d) (s := {s with memory := m'}) hr hk hc'
  have hsame : ({s with memory := m'} : State).holds c' = !({s with memory := m} : State).holds c := by
    rw [hholds]
    cases c <;> rfl
  refine ⟨hfault, hfault', ?_⟩
  rw [hsame] at ht'
  cases hheld : ({s with memory := m} : State).holds c <;> rw [hheld] at ht ht'
  · exact .inr ⟨ht, ht'⟩
  · exact .inl ⟨ht, ht'⟩

/-- A step that executes a word fails where it is or ends where the word leads. -/
theorem step_leads (hr : s.fault.raised = false) (hk : s.waiting = false)
    (hpc : s.pc.toNat ≤ 0xFFF) (hsp : s.stack.pointer ≤ 16) :
    (s.step d).fault.code ≠ 0 ∧ (s.step d).pc = s.pc ∨
      (s.step d).pc.toNat = s.leadsTo d (s.memory.wordFrom s.pc.toNat) := by
  rcases step_cases d s with ⟨hr', -⟩ | ⟨-, hk', -⟩ | ⟨-, -, f, -, hs⟩ | ⟨-, -, ho⟩
  · rw [hr] at hr'
    cases hr'
  · rw [hk] at hk'
    cases hk'
  · rw [hs]
    exact .inl ⟨f.code_ne_zero, rfl⟩
  · rw [← wordAt_pc s.memory hpc]
    exact .inr (pc_of_outcome hpc hsp ho)

/-- **The counter goes where the word says,** and stays inside memory. Of two words with opposite
conditions, one takes the machine over the next instruction and the other to it. -/
theorem counter_law (d : Dialect) (s : State) (hf : s.fault.code = 0) (hk : s.waiting = false)
    (hpc : s.pc.toNat ≤ 0xFFF) (hsp : 0 ≤ s.stack.pointer ∧ s.stack.pointer ≤ 16)
    (hslots : ∀ k : Fin 16, s.stack.slots[k].toNat ≤ 0xFFF) :
    ((s.step d).fault.code = 0 →
      (s.step d).pc.toNat = s.leadsTo d (s.memory.wordFrom s.pc.toNat)) ∧
    (s.step d).pc.toNat ≤ 0xFFF ∧
    ∀ m m' : Memory, Opposite (m.wordFrom s.pc.toNat) (m'.wordFrom s.pc.toNat) →
      let t := ({s with memory := m} : State).step d
      let t' := ({s with memory := m'} : State).step d
      t.fault.code = 0 ∧ t'.fault.code = 0 ∧
        (t.pc.toNat = (s.pc.toNat + 4) % 4096 ∧ t'.pc.toNat = (s.pc.toNat + 2) % 4096 ∨
          t.pc.toNat = (s.pc.toNat + 2) % 4096 ∧ t'.pc.toNat = (s.pc.toNat + 4) % 4096) := by
  have hr : s.fault.raised = false := not_raised_iff.2 hf
  refine ⟨fun hstep => ?_, ?_, ?_⟩
  · rcases step_leads (d := d) hr hk hpc hsp.2 with ⟨hfails, -⟩ | hleads
    · exact absurd hstep hfails
    · exact hleads
  · rcases step_leads (d := d) hr hk hpc hsp.2 with ⟨-, hstays⟩ | hleads
    · rw [hstays]
      exact hpc
    · rw [hleads]
      exact leadsTo_le d _ hpc hslots
  · intro m m' h t t'
    obtain ⟨hfault, hfault', hpcs⟩ := step_opposite (d := d) hr hk hpc h
    exact ⟨by rw [hfault, hf], by rw [hfault', hf], hpcs⟩

/-- A word whose second byte lies at the start of memory: one that skips goes on four bytes further,
which is address three, and its opposite at address one. -/
theorem counter_law_end_of_memory :
    let s : State := {fresh ⟨0, 0⟩ with pc := 0xFFF, memory := Memory.fresh.write 0xFFF 0x40}
    let t := ({s with memory := Memory.fresh.write 0xFFF 0x30} : State).step .modern
    (s.fault.code = 0 ∧ s.waiting = false ∧ s.pc.toNat ≤ 0xFFF ∧ s.stack.pointer = 0) ∧
      s.memory.wordFrom s.pc.toNat = 0x40F0 ∧ (s.step .modern).fault.code = 0 ∧
      (s.step .modern).pc.toNat = 3 ∧ t.fault.code = 0 ∧ t.pc.toNat = 1 := by
  intro s t
  have hword : s.memory.wordFrom s.pc.toNat = 0x40F0 := by decide +kernel
  have hword' : (Memory.fresh.write 0xFFF 0x30).wordFrom s.pc.toNat = 0x30F0 := by decide +kernel
  obtain ⟨hleads, -, hopposite⟩ :=
    counter_law .modern s (by decide) rfl (by decide) (by decide) (by decide)
  have hpair : Opposite ((Memory.fresh.write 0xFFF 0x30).wordFrom s.pc.toNat)
      (s.memory.wordFrom s.pc.toNat) := by
    rw [hword, hword']
    exact .byte 0x0 0xF0
  obtain ⟨hfault, hstep, hpcs⟩ := hopposite _ _ hpair
  have hpc : (s.step .modern).pc.toNat = 3 := by
    rw [hleads hstep, hword]
    decide
  rcases hpcs with ⟨-, hgoes⟩ | ⟨hgoes, -⟩
  · exact absurd hgoes (by rw [hpc]; decide)
  · refine ⟨by decide, hword, hstep, hpc, hfault, ?_⟩
    rw [hgoes]
    decide

end State
end Chip8
