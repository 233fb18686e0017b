import Chip8.Instruction.Basic
import Chip8.Sprite
import Chip8.State

/-!
Execution of one instruction.

An instruction changes the state first, and what is wrong with the change is flagged afterwards
(`attempt`): a call on a full stack has moved the pointer and the counter by then, and a store that
meets a protected place has written all of its bytes. `rollback` takes such an attempt back, and the
fault record is all that is left of it. `execute` is an attempt that is taken back if it fails; on a
machine that has stopped every attempt counts as failed, for the record is there already.
-/
namespace Chip8

namespace Alu

/-- The result of an operation on the target's value `a` and the source's value `b`. -/
def result (a b : Byte) : Alu → Byte
  | .copy => b
  | .or => a ||| b
  | .and => a &&& b
  | .xor => a ^^^ b
  | .add => a + b
  | .sub => a - b
  | .shiftRight => a >>> 1
  | .subFrom => b - a
  | .shiftLeft => a <<< 1

/-- The flag that an operation leaves: the carry of a sum, the absence of a borrow, or the bit
shifted out. -/
def flag? (a b : Byte) : Alu → Option Bool
  | .copy | .or | .and | .xor => none
  | .add => some (decide (255 < a.toNat + b.toNat))
  | .sub => some (decide (b ≤ a))
  | .shiftRight => some (a.getLsbD 0)
  | .subFrom => some (decide (a ≤ b))
  | .shiftLeft => some a.msb

def isShift : Alu → Bool
  | .shiftRight | .shiftLeft => true
  | _ => false

def isLogic : Alu → Bool
  | .or | .and | .xor => true
  | _ => false

end Alu

/-- A flag as the flag register holds it. -/
def flagByte (b : Bool) : Byte := if b then 1 else 0

/-- The decimal digits of a byte, hundreds first. -/
def decimalDigits (b : Byte) : List Byte :=
  [BitVec.ofNat 8 (b.toNat / 100), BitVec.ofNat 8 (b.toNat / 10 % 10), BitVec.ofNat 8 (b.toNat % 10)]

namespace State

/-- The state with the next instruction passed over, if `b`. -/
def skipIf (s : State) (b : Bool) : State :=
  if b then {s with pc := (s.pc + 2).wrap} else s

/-- Whether a condition holds. Keys go by the low nibble of a register. -/
def holds (s : State) : Condition → Bool
  | .equals x n => s.v x == n
  | .differs x n => s.v x != n
  | .same x y => s.v x == s.v y
  | .distinct x y => s.v x != s.v y
  | .keyDown x => s.keypad.isDown ((s.v x).setWidth 4)
  | .keyUp x => !s.keypad.isDown ((s.v x).setWidth 4)

/-- An operation on two registers. The flag is written last, so it wins over the result. -/
def operate (d : Dialect) (s : State) (op : Alu) (x y : Nibble) : State :=
  let b := s.v y
  let a := if op.isShift && d.shiftTakesVY then b else s.v x
  let flag := if op.isLogic && d.logicClearsFlag then some false else op.flag? a b
  let t := s.setV x (op.result a b)
  match flag with
  | none => t
  | some f => t.setV flagRegister (flagByte f)

/-- The state after registers up to `x` were moved to or from memory. -/
def afterMove (d : Dialect) (s : State) (x : Nibble) : State :=
  if d.moveAdvancesIndex then
    {s with index := (s.index + BitVec.ofNat 16 (x.toNat + 1)).wrap}
  else s

/-- A sprite drawn on the screen. The flag says whether it put out a lit pixel. -/
def draw (d : Dialect) (s : State) (x y height : Nibble) : State :=
  let sprite :=
    Sprite.mask s.memory s.index.toNat (s.v x).toNat (s.v y).toNat height.toNat d.spritesWrap
  {s with
    screen := s.screen.xor sprite
    registers := s.registers.write flagRegister (flagByte (s.screen.overlaps sprite))
    drawn := true}

/-- What an instruction leaves, the counter being past it: its changes, and a flag if it failed. -/
def attempt (d : Dialect) (s : State) : Instruction → State
  | .machineCode a => s.failIf (!d.skipsMachineCode) (.invalidOpcode (a.setWidth 16))
  | .clear => {s with screen := Grid.dark, drawn := true}
  | .ret =>
    let p := s.stack.pop
    {s with stack := p.stack, pc := p.address}.failIf p.underflow .stackUnderflow
  | .jump a => {s with pc := a.setWidth 16}
  | .call a =>
    let (stack, full) := s.stack.push s.pc
    {s with stack := stack, pc := a.setWidth 16}.failIf full .stackOverflow
  | .skip c => s.skipIf (s.holds c)
  | .load x n => s.setV x n
  | .add x n => s.setV x (s.v x + n)
  | .alu op x y => s.operate d op x y
  | .setIndex a => {s with index := a.setWidth 16}
  | .jumpOffset a =>
    let x := if d.jumpTakesVX then a.extractLsb' 8 4 else 0
    {s with pc := Word.wrap (a.setWidth 16 + (s.v x).setWidth 16)}
  | .random x n => {s.setV x (s.random.byte &&& n) with random := s.random.advance}
  | .draw x y n => s.draw d x y n
  | .readDelay x => s.setV x s.delayTimer
  | .waitKey x =>
    {s with
      pc := (s.pc - 2).wrap
      waiting := true
      keyTarget := x.toNat
      keysSeen := s.keypad}
  | .setDelay x => {s with delayTimer := s.v x}
  | .setSound x => {s with soundTimer := s.v x}
  | .addIndex x => {s with index := (s.index + (s.v x).setWidth 16).wrap}
  | .glyph x => {s with index := BitVec.ofNat 16 (glyphStart + glyphSize * ((s.v x).toNat % 16))}
  | .digits x =>
    let digits := decimalDigits (s.v x)
    s.writeBytes s.index.toNat digits digits.length
  | .store x =>
    (s.writeBytes s.index.toNat s.registers.toList (x.toNat + 1 : Nat)).afterMove d x
  | .restore x =>
    let loaded : Registers := Vector.ofFn fun i =>
      if i ≤ x.toNat then s.memory.read (Memory.place s.index.toNat i) else s.registers.get i
    {s with registers := loaded}.afterMove d x

/-- What a word leaves. A word that spells no instruction is flagged. -/
def dispatch (d : Dialect) (s : State) (w : Word) : State :=
  match Instruction.decode w with
  | some i => s.attempt d i
  | none => s.flag (.invalidOpcode w)

/-- What is left of an attempt to get from `s` to `t`. If `t` has a fault record, the state is `s`
again, with the record under the given address. -/
def rollback (s t : State) (address : Word) : State :=
  if t.fault.raised then {s with fault := {t.fault with address := address.wrap}} else t

/-- The state after a word fetched from `address`. -/
def execute (d : Dialect) (s : State) (w : Word) (address : Word) : State :=
  s.rollback (s.dispatch d w) address

/-- The address of the instruction before the counter. -/
def lastAddress (s : State) : Word := s.pc - 2

end State
end Chip8
