import Chip8.Proofs.Dispatch
import Chip8.Proofs.Reach

/-!
A machine that checks its indices.

The step is done again with every table read and written by number: memory at the counter, the
executor of the word, registers, keys, the rows of a sprite, the slots of the stack. If an index has
no entry there is no state after (`step?`). One index is let off, that of a push on a full stack,
which writes nothing. In a state that a machine can have, no other index goes wrong, for the machine
that checks makes the step of the one that does not (`step?_eq`). What the full stack comes to is
undone by the fault (`step_of_full`).
-/
namespace Chip8

namespace Checked
open Table
variable {d : Dialect} {s : State}

/-! ### The step with its indices -/

/-- A pop reads and clears the slot below the pointer, or the lowest one. -/
def pop? (s : Stack) : Option Stack.Popped := do
  let top := max (s.pointer - 1) 0
  let address ← get? s.slots top
  let slots ← set? s.slots top 0
  return ⟨⟨slots, top⟩, address, decide (s.pointer ≤ 0)⟩

/-- A push writes the slot at the pointer, and nothing on a full stack. -/
def push? (s : Stack) (a : Word) : Option (Stack × Bool) := do
  let slots ← if s.pointer = stackDepth then some s.slots else set? s.slots s.pointer a.wrap
  return (⟨slots, s.pointer + 1⟩, decide (stackDepth ≤ s.pointer))

def keyDown? (s : State) (x : Nibble) : Option Bool := do
  let key ← get? s.registers x.toNat
  get? s.keypad (key.toNat % 16 : Nat)

def holds? (s : State) : Condition → Option Bool
  | .equals x n => do return (← get? s.registers x.toNat) == n
  | .differs x n => do return (← get? s.registers x.toNat) != n
  | .same x y => do return (← get? s.registers x.toNat) == (← get? s.registers y.toNat)
  | .distinct x y => do return (← get? s.registers x.toNat) != (← get? s.registers y.toNat)
  | .keyDown x => keyDown? s x
  | .keyUp x => do return !(← keyDown? s x)

/-- The state with a register written. -/
def setV? (s : State) (x : Nibble) (b : Byte) : Option State := do
  return {s with registers := ← set? s.registers x.toNat b}

def operate? (d : Dialect) (s : State) (op : Alu) (x y : Nibble) : Option State := do
  let vx ← get? s.registers x.toNat
  let b ← get? s.registers y.toNat
  let a := if op.isShift && d.shiftTakesVY then b else vx
  let flag := if op.isLogic && d.logicClearsFlag then some false else op.flag? a b
  let t ← setV? s x (op.result a b)
  match flag with
  | none => return t
  | some f => setV? t flagRegister (flagByte f)

/-- The first `count` values go to memory. The places of all of them are read and written, those
past the count with what they hold. -/
def store? {k : Nat} (s : State) (values : Vector Byte k) (count : Nat) :
    Option (Except Fault State) := do
  let index := fun i : Fin k => ((s.index.toNat : Int) + i.val) % 4096
  let held ← gather? s.memory index
  let memory ← scatter? s.memory index fun i =>
    if i.val < (count : Int) then values.get i else held i
  return match Memory.firstProtected? s.index.toNat count with
    | some a => .error (.protectedWrite a)
    | none => .ok {s with memory := memory}

/-- The decimal digits of a byte in a row of three. -/
def digitRow (b : Byte) : Vector Byte 3 := ⟨(decimalDigits b).toArray, rfl⟩

/-- A sprite looks up a row for each row of the screen, the nearest one it has. -/
def mask? (m : Memory) (index x y height : Nat) (wrap : Bool) : Option Screen := do
  let rows ← gather? m fun i : Fin Sprite.maxHeight => ((index : Int) + i.val) % 4096
  let lines ← gather? (Vector.ofFn rows) fun py : Fin 32 =>
    min (max (Sprite.offset 32 wrap y py) 0) (Sprite.maxHeight - 1)
  return Grid.ofRows fun py =>
    let r := Sprite.offset 32 wrap y py
    if 0 ≤ r ∧ r < height then Sprite.line (lines py) x wrap else Vector.replicate 64 false

/-- What an instruction does. Those not named here compute no index. -/
def perform? (d : Dialect) (s : State) : Instruction → Option (Except Fault State)
  | .ret => do
    let p ← pop? s.stack
    return if p.underflow then .error .stackUnderflow
      else .ok {s with stack := p.stack, pc := p.address}
  | .call a => do
    let (stack, full) ← push? s.stack s.pc
    return if full then .error .stackOverflow
      else .ok {s with stack := stack, pc := a.setWidth 16}
  | .skip c => do return .ok (s.skipIf (← holds? s c))
  | .load x n => do return .ok (← setV? s x n)
  | .add x n => do return .ok (← setV? s x ((← get? s.registers x.toNat) + n))
  | .alu op x y => do return .ok (← operate? d s op x y)
  | .jumpOffset a => do
    let x := if d.jumpTakesVX then a.extractLsb' 8 4 else 0
    let v ← get? s.registers x.toNat
    return .ok {s with pc := Word.wrap (a.setWidth 16 + v.setWidth 16)}
  | .random x n => do
    return .ok {← setV? s x (s.random.byte &&& n) with random := s.random.advance}
  | .draw x y n => do
    let vx ← get? s.registers x.toNat
    let vy ← get? s.registers y.toNat
    let sprite ← mask? s.memory s.index.toNat vx.toNat vy.toNat n.toNat d.spritesWrap
    let t ← setV? s flagRegister (flagByte (s.screen.overlaps sprite))
    return .ok {t with screen := s.screen.xor sprite, drawn := true}
  | .readDelay x => do return .ok (← setV? s x s.delayTimer)
  | .setDelay x => do return .ok {s with delayTimer := ← get? s.registers x.toNat}
  | .setSound x => do return .ok {s with soundTimer := ← get? s.registers x.toNat}
  | .addIndex x => do
    let v ← get? s.registers x.toNat
    return .ok {s with index := (s.index + v.setWidth 16).wrap}
  | .glyph x => do
    let v ← get? s.registers x.toNat
    return .ok {s with index := BitVec.ofNat 16 (glyphStart + glyphSize * (v.toNat % 16))}
  | .digits x => do
    let v ← get? s.registers x.toNat
    store? s (digitRow v) 3
  | .store x => do return (← store? s s.registers (x.toNat + 1)).map (State.afterMove d · x)
  | .restore x => do
    let held ← gather? s.memory fun i : Fin 16 => ((s.index.toNat : Int) + i.val) % 4096
    let loaded : Registers := Vector.ofFn fun i =>
      if i ≤ x.toNat then held i else s.registers.get i
    return .ok ({s with registers := loaded}.afterMove d x)
  | i => some (s.perform d i)

/-- What a word does, by the executor of its number. -/
def outcome? (d : Dialect) (s : State) (w : Word) : Option (Except Fault State) := do
  let number ← Dispatch.number? w
  match ← get? (Dispatch.executors w) number with
  | some i => perform? d s i
  | none => return .error (.invalidOpcode w)

/-- A look at the keypad writes the awaited register, and only then asks whether a key went down. -/
def poll? (s : State) : Option State := do
  let key := Keypad.firstPressed? s.keypad s.keysSeen
  let registers ← set? s.registers s.keyTarget (BitVec.ofNat 8 (key.elim 0 Fin.val))
  return if key.isSome then
      {s with registers := registers, pc := (s.pc + 2).wrap, waiting := false, keysSeen := s.keypad}
    else {s with keysSeen := s.keypad}

/-- The word at the counter, byte by byte. -/
def fetch? (s : State) : Option (State × Word) := do
  let high ← get? s.memory s.pc.toNat
  let low ← get? s.memory (s.pc + 1).wrap.toNat
  return ({s with pc := (s.pc + 2).wrap}, Word.ofBytes high low)

def step? (d : Dialect) (s : State) : Option State :=
  if s.fault.raised then some s
  else if s.waiting then poll? s
  else do
    let (t, w) ← fetch? s
    return match ← outcome? d t w with
      | .error f => {s with fault := FaultRecord.of f s.pc}
      | .ok u => u

/-! ### Where every index has its entry -/

theorem set?_slots {slots : Vector Word 16} {i : Int} (hi : 0 ≤ i) (h : i < 16) (w : Word) :
    set? slots i w = some (Stack.write slots i w) := by
  have hslot : slot? 16 i = some ⟨i.toNat, by omega⟩ := slot?_of_lt hi h
  rw [set?, dif_pos ⟨hi, h⟩, Stack.write, hslot]

theorem get?_slots {slots : Vector Word 16} {i : Int} (hi : 0 ≤ i) (h : i < 16) :
    get? slots i = some slots[min i.toNat 15] := by
  have hmin : min i.toNat 15 = i.toNat := by omega
  rw [get?, dif_pos ⟨hi, h⟩]
  simp only [hmin]

theorem pop?_eq {s : Stack} (h : s.Sound) : pop? s = some s.pop := by
  simp only [pop?, get?_slots h.top.1 h.top.2, set?_slots h.top.1 h.top.2, Option.bind_eq_bind,
    Option.bind_some, Option.pure_def, Stack.pop]

/-- The dropped write of a full stack is what `push` makes of it. -/
theorem push?_eq {s : Stack} (h : s.Sound) (a : Word) : push? s a = some (s.push a) := by
  have hle := h.pointer_le
  by_cases hfull : s.pointer = stackDepth
  · have hslot : slot? 16 s.pointer = none := slot?_of_ge (Int.le_of_eq hfull.symm)
    rw [push?, if_pos hfull, Stack.push, Stack.write, hslot]
    rfl
  · have hlt : s.pointer < 16 := by
      rw [stackDepth] at hfull
      omega
    rw [push?, if_neg hfull, set?_slots h.pointer_nonneg hlt]
    rfl

theorem keyDown?_eq (s : State) (x : Nibble) :
    keyDown? s x = some (s.keypad.isDown ((s.v x).setWidth 4)) := by
  have hkey : (s.v x).toNat % 16 = ((s.v x).setWidth 4).toNat := by
    rw [BitVec.toNat_setWidth]
  rw [keyDown?, get?_registers]
  show get? s.keypad ((s.v x).toNat % 16 : Nat) = _
  rw [hkey, get?_keypad]

theorem holds?_eq (s : State) (c : Condition) : holds? s c = some (s.holds c) := by
  cases c <;> simp only [holds?, get?_registers, keyDown?_eq, Option.bind_eq_bind, Option.bind_some,
    Option.pure_def, State.holds, State.v]

theorem setV?_eq (s : State) (x : Nibble) (b : Byte) : setV? s x b = some (s.setV x b) := by
  rw [setV?, set?_registers]
  rfl

theorem operate?_eq (d : Dialect) (s : State) (op : Alu) (x y : Nibble) :
    operate? d s op x y = some (s.operate d op x y) := by
  simp only [operate?, get?_registers, setV?_eq, Option.bind_eq_bind, Option.bind_some,
    State.operate]
  split <;> split <;> simp_all [State.v]

theorem store?_eq {k : Nat} (s : State) (values : Vector Byte k) {count : Nat} (hk : k ≤ 4096)
    (hcount : count ≤ k) : store? s values count = some (s.store (values.toList.take count)) := by
  have hlen : (values.toList.take count).length = count := by
    rw [List.length_take, Vector.length_toList, Nat.min_eq_left hcount]
  have htake : s.memory.transfer s.index.toNat values.toList count =
      s.memory.transfer s.index.toNat (values.toList.take count) count :=
    Memory.transfer_take (by rw [Vector.length_toList]; exact hk)
  -- what is put back past the count is what was there
  simp only [store?, gather?_places, Option.bind_eq_bind, Option.bind_some]
  rw [scatter?_places, htake, State.store, hlen]
  rfl

theorem mask?_eq (m : Memory) (index x y height : Nat) (wrap : Bool) :
    mask? m index x y height wrap = some (Sprite.mask m index x y height wrap) := by
  have hrows : gather? (Vector.ofFn fun i : Fin Sprite.maxHeight => m.read (Memory.place index i))
      (fun py : Fin 32 => min (max (Sprite.offset 32 wrap y py) 0) (Sprite.maxHeight - 1)) =
      some fun py : Fin 32 => Sprite.row m index (Sprite.offset 32 wrap y py).toNat := by
    apply gather?_eq_some
    intro py
    have hrow : min (max (Sprite.offset 32 wrap y py) 0) (Sprite.maxHeight - 1) =
        (min (Sprite.offset 32 wrap y py).toNat (Sprite.maxHeight - 1) : Nat) := by
      rw [Sprite.maxHeight]
      omega
    have hlt : min (Sprite.offset 32 wrap y py).toNat (Sprite.maxHeight - 1) <
        Sprite.maxHeight := by
      rw [Sprite.maxHeight]
      omega
    rw [hrow, get?_natCast hlt, Vector.getElem_ofFn, Sprite.row]
  simp only [mask?, gather?_places, hrows, Option.bind_eq_bind, Option.bind_some]
  rfl

theorem perform?_eq (hs : s.stack.Sound) (i : Instruction) :
    perform? d s i = some (s.perform d i) := by
  cases i with
  | ret =>
    simp only [perform?, pop?_eq hs, Option.bind_eq_bind, Option.bind_some]
    rfl
  | call a =>
    simp only [perform?, push?_eq hs, Option.bind_eq_bind, Option.bind_some]
    rfl
  | skip c =>
    simp only [perform?, holds?_eq, Option.bind_eq_bind, Option.bind_some]
    rfl
  | alu op x y =>
    simp only [perform?, operate?_eq, Option.bind_eq_bind, Option.bind_some]
    rfl
  | draw x y n =>
    simp only [perform?, get?_registers, mask?_eq, setV?_eq, Option.bind_eq_bind, Option.bind_some]
    rfl
  | digits x =>
    have hdigits (b : Byte) : (digitRow b).toList.take 3 = decimalDigits b := rfl
    rw [perform?, get?_registers, Option.bind_eq_bind, Option.bind_some,
      store?_eq _ _ (by decide) (by decide), hdigits, State.perform, State.v]
  | store x =>
    have := x.isLt
    simp only [perform?, store?_eq s s.registers (by decide) (show x.toNat + 1 ≤ 16 by omega),
      Option.bind_eq_bind, Option.bind_some]
    rfl
  | restore x =>
    simp only [perform?, gather?_places, Option.bind_eq_bind, Option.bind_some]
    rfl
  | _ =>
    simp only [perform?, get?_registers, setV?_eq, Option.bind_eq_bind, Option.bind_some] <;> rfl

theorem outcome?_eq (hs : s.stack.Sound) (w : Word) : outcome? d s w = some (s.outcome d w) := by
  obtain ⟨number, hn, hi⟩ := Option.bind_eq_some_iff.1 (Dispatch.executor_number w)
  simp only [outcome?, hn, hi, Option.bind_eq_bind, Option.bind_some, State.outcome]
  cases Instruction.decode w with
  | none => rfl
  | some i => exact perform?_eq hs i

theorem poll?_eq (hlow : 0 ≤ s.keyTarget) (hhigh : s.keyTarget < 16) : poll? s = some s.poll := by
  have hslot : slot? 16 s.keyTarget = some ⟨s.keyTarget.toNat, by omega⟩ := slot?_of_lt hlow hhigh
  have hrange : 0 ≤ s.keyTarget ∧ s.keyTarget < (16 : Nat) := ⟨hlow, hhigh⟩
  simp only [poll?, set?, dif_pos hrange, Option.bind_eq_bind, Option.bind_some, State.poll,
    State.receiveKey, hslot]
  cases Keypad.firstPressed? s.keypad s.keysSeen <;> rfl

theorem get?_readWord {m : Memory} {w : Word} (h : w.toNat < 4096) :
    get? m w.toNat = some (m.readWord w) := by
  have hw : (w.setWidth 12).toNat = w.toNat := by
    rw [BitVec.toNat_setWidth]
    omega
  rw [Memory.readWord, if_pos h, ← hw, get?_memory]

theorem fetch?_eq (hpc : s.pc.toNat < 4096) : fetch? s = some s.fetch := by
  rw [fetch?, get?_readWord hpc, get?_readWord (State.toNat_wrap_lt _)]
  rfl

/-- No index of a step is out of its table, but for the one of a push on a full stack. -/
theorem step?_eq (hs : s.Bounded) : step? d s = some (s.step d) := by
  cases hr : s.fault.raised with
  | true => rw [State.step_of_raised hr, step?, if_pos hr]
  | false =>
    cases hk : s.waiting with
    | true =>
      rw [State.step_of_waiting hr hk, step?, if_neg (by simp [hr]), if_pos hk]
      exact poll?_eq hs.keyTarget_nonneg hs.keyTarget_lt
    | false =>
      rw [step?, if_neg (by simp [hr]), if_neg (by simp [hk])]
      simp only [fetch?_eq hs.pc_lt, outcome?_eq hs.fetch.stack, Option.bind_eq_bind,
        Option.bind_some]
      cases ho : s.fetch.1.outcome d s.fetch.2 with
      | error f =>
        rw [State.step_of_fault hr hk ho]
        rfl
      | ok t =>
        rw [State.step_of_outcome hr hk ho]
        rfl

/-- The slot that a push on a full stack would write is none of the stack's. -/
theorem set?_of_full (hfull : s.stack.pointer = stackDepth) (w : Word) :
    set? s.stack.slots s.stack.pointer w = none := by
  rw [hfull, stackDepth, set?, dif_neg (by decide)]

end Checked

/-- Of a call on a full stack nothing is left but the fault. -/
theorem State.step_of_full {d : Dialect} {s : State} {a : Address} (hr : s.fault.raised = false)
    (hk : s.waiting = false) (hfull : s.stack.pointer = stackDepth)
    (hw : s.wordAt s.pc = Instruction.encode (.call a)) :
    s.step d = {s with fault := FaultRecord.of .stackOverflow s.pc} := by
  have hshadow : ¬ Instruction.Shadowed (.call a) := by simp [Instruction.Shadowed]
  have ho : s.fetch.1.outcome d (s.wordAt s.pc) = .error .stackOverflow := by
    rw [hw, outcome_of_decode (Instruction.decode_encode hshadow), perform]
    simp only [fetch, Stack.push, hfull, Int.le_refl, decide_true, if_true]
  exact step_of_fault hr hk ho

/-- **The state of a machine stays in range, and so do the indices of its steps.** Only the slot
that a push on a full stack writes is not checked, and nothing is left of such a push. -/
theorem run_in_range (d : Dialect) (seed : BitVec 64) (image : List Byte)
    (h : image.length ≤ maxProgramSize) :
    ∃ m, Machine.create d seed image = .ok m ∧ ∀ calls : List Call,
      let s := (m.run calls).1.state
      s.WellFormed ∧ Checked.step? d s = some (s.step d) ∧
        (s.stack.pointer = stackDepth →
          (∀ w, Table.set? s.stack.slots s.stack.pointer w = none) ∧
            ∀ a, s.fault.raised = false → s.waiting = false →
              s.wordAt s.pc = Instruction.encode (.call a) →
              s.step d = {s with fault := FaultRecord.of .stackOverflow s.pc}) := by
  obtain ⟨m, hm⟩ := Machine.create_of_le d seed h
  refine ⟨m, hm, fun calls => ?_⟩
  intro s
  have hs : s.WellFormed := ((Machine.consistent_create hm).run calls).reached.wellFormed
  refine ⟨hs, Checked.step?_eq hs.toBounded, fun hfull => ⟨Checked.set?_of_full hfull, ?_⟩⟩
  intro a hr hk hw
  exact State.step_of_full hr hk hfull hw

/-- A program that calls itself has a full stack after sixteen steps. -/
theorem run_in_range_full :
    let image : List Byte := [0x22, 0x00]
    image.length ≤ maxProgramSize ∧ ∃ m, Machine.create .modern 0 image = .ok m ∧
      let s := (m.run (List.replicate 16 .step)).1.state
      s.WellFormed ∧ Checked.step? .modern s = some (s.step .modern) ∧
        s.stack.pointer = stackDepth ∧
        s.step .modern = {s with fault := FaultRecord.of .stackOverflow s.pc} := by
  intro image
  have h : image.length ≤ maxProgramSize := by decide
  have heval : ((Machine.create .modern 0 image).toOption.any fun m =>
      let s := (m.run (List.replicate 16 .step)).1.state
      decide (s.stack.pointer = (stackDepth : Int) ∧ s.fault.raised = false ∧ s.waiting = false ∧
        s.wordAt s.pc = Instruction.encode (.call 0x200))) = true := by
    decide +kernel
  obtain ⟨m, hm, hrange⟩ := run_in_range .modern 0 image h
  rw [hm] at heval
  obtain ⟨hpointer, hr, hk, hw⟩ := of_decide_eq_true heval
  obtain ⟨hwell, hstep, hfull⟩ := hrange (List.replicate 16 .step)
  exact ⟨h, m, hm, hwell, hstep, hpointer, (hfull hpointer).2 0x200 hr hk hw⟩

end Chip8
