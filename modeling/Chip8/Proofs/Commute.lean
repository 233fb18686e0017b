import Chip8.Proofs.Atomicity

/-!
Steps and hosts do not get in each other's way.

Between two steps a host changes the timers and the keypad, and few instructions look at these or
write them (`Instruction.shared`). All others do the same before the change and after it, which
`perform_changed` says for every change at once. So does a step, be it a look at the keypad, an
instruction, a fault or nothing at all (`step_changed`). The main result `host_commutes` names the
words: a tick may go before or after every step but those of the timers' instructions, and a new
keypad before or after every step but those that look at the keys.
-/
namespace Chip8

/-- A change of the parts of a state that belong to its host. -/
structure HostChange where
  delay : Byte → Byte
  sound : Byte → Byte
  keys : Keypad → Keypad

namespace HostChange

/-- One off a timer, if there is one left. -/
def countDown (b : Byte) : Byte := if b = 0 then 0 else b - 1

def tick : HostChange := ⟨countDown, countDown, id⟩

def press (k : Keypad) : HostChange := ⟨id, id, fun _ => k⟩

/-- A change leaves a part as it is, whatever it is. -/
def Leaves (c : HostChange) : Part → Prop
  | .delayTimer => c.delay = id
  | .soundTimer => c.sound = id
  | .keypad => c.keys = id
  | _ => True

end HostChange

/-- The parts that a host changes and that an instruction reads or writes. -/
def Instruction.shared : Instruction → List Part
  | .readDelay _ | .setDelay _ => [.delayTimer]
  | .setSound _ => [.soundTimer]
  | .skip (.keyDown _) | .skip (.keyUp _) | .waitKey _ => [.keypad]
  | _ => []

namespace State
variable {d : Dialect} {s : State} {i : Instruction} {c : HostChange}

def changed (c : HostChange) (s : State) : State :=
  {s with
    delayTimer := c.delay s.delayTimer
    soundTimer := c.sound s.soundTimer
    keypad := c.keys s.keypad}

theorem changed_tick (s : State) : s.changed .tick = s.tick := rfl

theorem changed_press (s : State) (k : Keypad) : s.changed (.press k) = s.withKeypad k := rfl

/-! ### Instructions -/

theorem skipIf_changed (c : HostChange) (s : State) (b : Bool) :
    (s.changed c).skipIf b = (s.skipIf b).changed c := by
  cases b <;> rfl

theorem operate_changed (c : HostChange) (d : Dialect) (s : State) (op : Alu) (x y : Nibble) :
    (s.changed c).operate d op x y = (s.operate d op x y).changed c := by
  have hsame : ∀ z, (s.changed c).v z = s.v z := fun _ => rfl
  simp only [operate, hsame]
  split <;> rfl

theorem store_changed (c : HostChange) (s : State) (values : List Byte) :
    (s.changed c).store values = (s.store values).map (changed c) := by
  have hsame : (s.changed c).index = s.index := rfl
  rw [store, store, hsame]
  cases Memory.firstProtected? s.index.toNat values.length <;> rfl

theorem afterMove_changed (c : HostChange) (d : Dialect) (s : State) (x : Nibble) :
    (s.changed c).afterMove d x = (s.afterMove d x).changed c := by
  cases h : d.moveAdvancesIndex <;> simp only [afterMove, h] <;> rfl

/-- An instruction does the same before and after a change that leaves what it reads and writes. -/
theorem perform_changed (h : ∀ p ∈ i.shared, c.Leaves p) :
    (s.changed c).perform d i = (s.perform d i).map (changed c) := by
  cases i with
  | machineCode a => cases hm : d.skipsMachineCode <;> simp only [perform, hm] <;> rfl
  | ret =>
    have hsame : (s.changed c).stack = s.stack := rfl
    cases hu : s.stack.pop.underflow <;> simp only [perform, hsame, hu] <;> rfl
  | call a =>
    have hstack : (s.changed c).stack = s.stack := rfl
    have hpc : (s.changed c).pc = s.pc := rfl
    cases hf : (s.stack.push s.pc).2 <;> simp only [perform, hstack, hpc, hf] <;> rfl
  | skip condition =>
    have hholds : (s.changed c).holds condition = s.holds condition := by
      cases condition with
      | keyDown x | keyUp x =>
        have hkeys : c.keys = id := h .keypad (List.mem_singleton.2 rfl)
        simp only [holds, changed, hkeys, id]
        rfl
      | _ => rfl
    simp only [perform, attempt, hholds, skipIf_changed]
    rfl
  | alu op x y =>
    simp only [perform, attempt, operate_changed]
    rfl
  | readDelay x | setDelay x =>
    have hdelay : c.delay = id := h .delayTimer (List.mem_singleton.2 rfl)
    obtain ⟨delay, sound, keys⟩ := c
    subst hdelay
    rfl
  | setSound x =>
    have hsound : c.sound = id := h .soundTimer (List.mem_singleton.2 rfl)
    obtain ⟨delay, sound, keys⟩ := c
    subst hsound
    rfl
  | waitKey x =>
    have hkeys : c.keys = id := h .keypad (List.mem_singleton.2 rfl)
    obtain ⟨delay, sound, keys⟩ := c
    subst hkeys
    rfl
  | digits x => exact store_changed c s _
  | store x =>
    simp only [perform]
    rw [show (s.changed c).registers = s.registers from rfl, store_changed]
    cases s.store (s.registers.toList.take (x.toNat + 1)) with
    | error f => rfl
    | ok t => exact congrArg Except.ok (afterMove_changed c d t x)
  | restore x =>
    have hmemory : (s.changed c).memory = s.memory := rfl
    have hindex : (s.changed c).index = s.index := rfl
    have hregisters : (s.changed c).registers = s.registers := rfl
    simp only [perform, attempt, hmemory, hindex, hregisters]
    generalize Vector.ofFn _ = loaded
    exact congrArg Except.ok (afterMove_changed c d {s with registers := loaded} x)
  | _ => rfl

theorem outcome_changed {w : Word}
    (h : ∀ i, Instruction.decode w = some i → ∀ p ∈ i.shared, c.Leaves p) :
    (s.changed c).outcome d w = (s.outcome d w).map (changed c) := by
  cases hd : Instruction.decode w with
  | none =>
    rw [outcome_of_data hd, outcome_of_data hd]
    rfl
  | some i =>
    rw [outcome_of_decode hd, outcome_of_decode hd]
    exact perform_changed (h i hd)

/-! ### Steps -/

theorem poll_changed (hkeys : c.keys = id) (s : State) :
    (s.changed c).poll = s.poll.changed c := by
  obtain ⟨delay, sound, keys⟩ := c
  subst hkeys
  have hkeypad : (s.changed ⟨delay, sound, id⟩).keypad = s.keypad := rfl
  have hseen : (s.changed ⟨delay, sound, id⟩).keysSeen = s.keysSeen := rfl
  cases hp : Keypad.firstPressed? s.keypad s.keysSeen <;>
    simp only [poll, hkeypad, hseen, hp] <;> rfl

/-- A step does the same before and after a change that leaves what it looks at. -/
theorem step_changed
    (h : s.fault.raised = true ∨ (s.waiting = true ∧ c.keys = id) ∨
      (s.waiting = false ∧
        ∀ i, Instruction.decode (s.wordAt s.pc) = some i → ∀ p ∈ i.shared, c.Leaves p)) :
    (s.step d).changed c = (s.changed c).step d := by
  by_cases hr : s.fault.raised = true
  · rw [step_of_raised hr, step_of_raised (s := s.changed c) hr]
  rw [Bool.not_eq_true] at hr
  rcases h with hraised | ⟨hk, hkeys⟩ | ⟨hk, hleaves⟩
  · rw [hr] at hraised
    cases hraised
  · rw [step_of_waiting hr hk, step_of_waiting (s := s.changed c) hr hk, poll_changed hkeys]
  · have ho : (s.changed c).fetch.1.outcome d (s.wordAt s.pc) =
        (s.fetch.1.outcome d (s.wordAt s.pc)).map (changed c) :=
      outcome_changed (s := s.fetch.1) hleaves
    cases hs : s.fetch.1.outcome d (s.wordAt s.pc) with
    | error f =>
      rw [hs] at ho
      rw [step_of_fault hr hk hs, step_of_fault (s := s.changed c) hr hk ho]
      rfl
    | ok t =>
      rw [hs] at ho
      rw [step_of_outcome hr hk hs, step_of_outcome (s := s.changed c) hr hk ho]

/-! ### Ticks and keys -/

/-- The instructions of the timers aside, nothing that is executed sees a change of the timers. -/
theorem leaves_of_keys (hkeys : c.keys = id) (hread : ∀ x, i ≠ .readDelay x)
    (hdelay : ∀ x, i ≠ .setDelay x) (hsound : ∀ x, i ≠ .setSound x) :
    ∀ p ∈ i.shared, c.Leaves p := by
  intro p hp
  cases i with
  | readDelay x => exact absurd rfl (hread x)
  | setDelay x => exact absurd rfl (hdelay x)
  | setSound x => exact absurd rfl (hsound x)
  | waitKey x =>
    rw [List.mem_singleton.1 hp]
    exact hkeys
  | skip condition =>
    cases condition with
    | keyDown x | keyUp x =>
      rw [List.mem_singleton.1 hp]
      exact hkeys
    | _ => cases hp
  | _ => cases hp

theorem tick_leaves {w : Word} (hw : ∀ x, w ≠ Instruction.encode (.readDelay x) ∧
      w ≠ Instruction.encode (.setDelay x) ∧ w ≠ Instruction.encode (.setSound x))
    (hi : Instruction.decode w = some i) : ∀ p ∈ i.shared, HostChange.tick.Leaves p := by
  have henc := Instruction.encode_of_decode hi
  refine leaves_of_keys rfl ?_ ?_ ?_ <;> rintro x rfl
  · exact (hw x).1 henc.symm
  · exact (hw x).2.1 henc.symm
  · exact (hw x).2.2 henc.symm

theorem press_leaves {w : Word} (k : Keypad)
    (hw : ∀ x, w ≠ Instruction.encode (.skip (.keyDown x)) ∧
      w ≠ Instruction.encode (.skip (.keyUp x)) ∧ w ≠ Instruction.encode (.waitKey x))
    (hi : Instruction.decode w = some i) : ∀ p ∈ i.shared, (HostChange.press k).Leaves p := by
  have henc := Instruction.encode_of_decode hi
  intro p hp
  cases i with
  | readDelay x | setDelay x | setSound x =>
    rw [List.mem_singleton.1 hp]
    rfl
  | waitKey x => exact absurd henc.symm (hw x).2.2
  | skip condition =>
    cases condition with
    | keyDown x => exact absurd henc.symm (hw x).1
    | keyUp x => exact absurd henc.symm (hw x).2.1
    | _ => cases hp
  | _ => cases hp

/-- **Ticks and keys commute with steps.** The exceptions are `FX07`, `FX15` and `FX18` for ticks,
and `EX9E`, `EXA1`, `FX0A` and the wait for a key for keypads. Steps that fail are none. -/
theorem host_commutes (d : Dialect) (s : State) :
    ((s.fault.code ≠ 0 ∨ s.waiting = true ∨
        ∀ x, s.wordAt s.pc ≠ Instruction.encode (.readDelay x) ∧
          s.wordAt s.pc ≠ Instruction.encode (.setDelay x) ∧
          s.wordAt s.pc ≠ Instruction.encode (.setSound x)) →
      (s.step d).tick = s.tick.step d) ∧
    ∀ k : Keypad,
      (s.fault.code ≠ 0 ∨ (s.waiting = false ∧
        ∀ x, s.wordAt s.pc ≠ Instruction.encode (.skip (.keyDown x)) ∧
          s.wordAt s.pc ≠ Instruction.encode (.skip (.keyUp x)) ∧
          s.wordAt s.pc ≠ Instruction.encode (.waitKey x))) →
      (s.step d).withKeypad k = (s.withKeypad k).step d := by
  simp only [← raised_iff]
  refine ⟨fun h => ?_, fun k h => ?_⟩
  · rw [← changed_tick, ← changed_tick]
    apply step_changed
    rcases h with hr | hk | hw
    · exact .inl hr
    · exact .inr (.inl ⟨hk, rfl⟩)
    · cases hk : s.waiting with
      | true => exact .inr (.inl ⟨rfl, rfl⟩)
      | false => exact .inr (.inr ⟨rfl, fun i hi => tick_leaves hw hi⟩)
  · rw [← changed_press, ← changed_press]
    apply step_changed
    rcases h with hr | ⟨hk, hw⟩
    · exact .inl hr
    · exact .inr (.inr ⟨hk, fun i hi => press_leaves k hw hi⟩)

/-- A step fails on a word that is data, before a tick of a running timer and a new keypad as after
them. -/
theorem host_commutes_fault :
    let s : State := {fresh ⟨0, 0⟩ with
      memory := Memory.fresh.load programStart [0xFF, 0xFF]
      delayTimer := 3}
    (s.step .modern).fault = ⟨1, 0x200, 0xFFFF⟩ ∧ s.tick.delayTimer = 2 ∧
      (s.step .modern).tick = s.tick.step .modern ∧
      ∀ k, (s.step .modern).withKeypad k = (s.withKeypad k).step .modern := by
  intro s
  have hw : s.wordAt s.pc = 0xFFFF := by decide +kernel
  obtain ⟨htick, hkeys⟩ := host_commutes .modern s
  refine ⟨by decide +kernel, by decide, htick (.inr (.inr ?_)), fun k => hkeys k (.inr ⟨rfl, ?_⟩)⟩
  all_goals
    rw [hw]
    decide

end State
end Chip8
