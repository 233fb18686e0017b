import Chip8.Dialect
import Chip8.Grid
import Chip8.Keypad
import Chip8.Memory
import Chip8.Random
import Chip8.Stack

/-!
The state of the machine.

Everything an instruction can read or change, and nothing else: the dialect is not part of it. The
fault record is the last word on a state. Once it is set, the machine has stopped.
-/
namespace Chip8

abbrev Registers := Vector Byte 16

/-- The register that instructions leave a carry, a borrow or a collision in. -/
def flagRegister : Nibble := 0xF

namespace Registers

def zero : Registers := Vector.replicate 16 0

def read (v : Registers) (x : Nibble) : Byte :=
  have := x.toNat_lt
  v[x.toNat]

def write (v : Registers) (x : Nibble) (b : Byte) : Registers := v.set x.toNat b x.toNat_lt

theorem read_write (v : Registers) (x y : Nibble) (b : Byte) :
    (v.write x b).read y = if x = y then b else v.read y := by
  simp only [read, write, Vector.getElem_set, BitVec.toNat_inj]

end Registers

structure State where
  memory : Memory
  pc : Word
  index : Word
  registers : Registers
  stack : Stack
  delayTimer : Byte
  soundTimer : Byte
  keypad : Keypad
  screen : Screen
  /-- The screen was drawn on since the host last looked. -/
  drawn : Bool
  /-- An instruction waits for a key, and `pc` is still on it. -/
  waiting : Bool
  /-- The register that the awaited key goes to. -/
  keyTarget : Int
  /-- The keypad as the waiting instruction last saw it. -/
  keysSeen : Keypad
  fault : FaultRecord
  random : Random.Key
  deriving DecidableEq

namespace State

/-- A machine without a program. -/
def fresh (random : Random.Key) : State where
  memory := Memory.fresh
  pc := BitVec.ofNat 16 programStart
  index := 0
  registers := Registers.zero
  stack := Stack.empty
  delayTimer := 0
  soundTimer := 0
  keypad := Keypad.released
  screen := Grid.dark
  drawn := false
  waiting := false
  keyTarget := 0
  keysSeen := Keypad.released
  fault := FaultRecord.clear
  random := random

/-- The value of a register. -/
def v (s : State) (x : Nibble) : Byte := s.registers.read x

/-- The state with a register set. -/
def setV (s : State) (x : Nibble) (b : Byte) : State :=
  {s with registers := s.registers.write x b}

/-- The error that the fault record stands for. -/
def diagnosis (s : State) : Except Int (Option Error) :=
  Error.ofRecord s.fault.code s.fault.address.toNat s.fault.value

/-- One tick of the clock: each timer counts down and stops at zero. -/
def tick (s : State) : State :=
  {s with
    delayTimer := if s.delayTimer = 0 then 0 else s.delayTimer - 1
    soundTimer := if s.soundTimer = 0 then 0 else s.soundTimer - 1}

/-- The state with another keypad. -/
def withKeypad (s : State) (k : Keypad) : State :=
  {s with keypad := k}

/-- Whether there is room for a program of that size. -/
def roomFor (size : Nat) : Except Error Unit :=
  if size ≤ maxProgramSize then .ok () else .error (.imageTooLarge size maxProgramSize)

/-- The state with a program in memory. -/
def load (s : State) (image : List Byte) : Except Error State :=
  (roomFor image.length).map fun _ => {s with memory := s.memory.load programStart image}

/-- The state with the kind and the value of a fault on record. Where the fault is met is not known
here, and what was changed before it stays. -/
def flag (s : State) (f : Fault) : State :=
  {s with fault := {s.fault with code := f.code, value := f.value}}

/-- A fault put on record if `b`. -/
def failIf (s : State) (b : Bool) (f : Fault) : State := if b then s.flag f else s

/-- The first `count` of some bytes written into memory, for an instruction or for a host. If they
touch the area of the machine, the first place there is flagged; the bytes are written all the
same. -/
def writeBytes (s : State) (start : Int) (values : List Byte) (count : Int) : State :=
  let written := {s with memory := s.memory.transfer start values count}
  match Memory.firstProtected? start (min count.toNat values.length) with
  | some a => written.flag (.protectedWrite a)
  | none => written

/-- The bytes of a list of numbers. -/
def bytesOfValue : Value → Except Refusal (List Byte)
  | .list items => items.mapM (Value.unsigned 8)
  | .table _ => .error .wrongKind
  | v => (v.unsigned 8).bind fun _ => .error .noList

/-- A host's transfer of numbers, all of them if no count is given. Numbers that are no bytes are
refused first, then a start or a count that is out of range, then a transfer of nothing. -/
def writeValues (s : State) (start values : Value) (count : Option Value) : Except Refusal State := do
  let bytes ← bytesOfValue values
  let start ← start.int32
  let count ← count.elim (.ok (bytes.length : Int)) Value.bound
  if bytes.isEmpty then .error .nothingToWrite else .ok (s.writeBytes start bytes count)

end State
end Chip8
