import Chip8.Step

/-!
A machine in the hands of a host.

A `Machine` keeps, beside the state, what the host was last told: a status, and the error if the
machine has halted. It also remembers the program and the seed, so that it can start over. A host
acts by calls, `call`, and each call has a reply; a call that is refused or fails leaves the machine
as it was. `run` makes a list of calls, and `run_append` splits it.
-/
namespace Chip8

inductive Status where
  | ready
  | waiting
  | halted
  deriving DecidableEq, Repr

def Status.text : Status → String
  | .ready => "ready"
  | .waiting => "awaiting_key"
  | .halted => "halted"

/-- What a host is told about one step. -/
structure StepReport where
  status : Status
  error : Option Error
  /-- Where the machine halted. -/
  address : Option Word
  deriving DecidableEq, Repr

structure Machine where
  dialect : Dialect
  seed : BitVec 64
  /-- The program last loaded. -/
  image : List Byte
  state : State
  status : Status
  error : Option Error
  deriving DecidableEq

/-- What a host can ask of a machine. -/
inductive Call where
  | step
  | tick
  | setKeys (keys : KeyStates)
  | pressKey (key : Int) (down : Bool)
  | takeDrawn
  | load (image : List Byte)
  | reset
  deriving DecidableEq, Repr

inductive Reply where
  | stepped (r : StepReport)
  /-- Whether the screen was drawn on since the last such call. -/
  | drawn (changed : Bool)
  | done
  | failed (e : Error)
  | refused (r : Refusal)
  deriving DecidableEq, Repr

namespace Machine

/-- The state a program starts in. -/
def boot (seed : BitVec 64) (image : List Byte) : Except Error State :=
  (State.fresh (Random.Key.ofSeed seed)).load image

/-- A machine with a program that has not run. -/
def create (dialect : Dialect) (seed : BitVec 64) (image : List Byte) : Except Error Machine :=
  (boot seed image).map fun s => ⟨dialect, seed, image, s, .ready, none⟩

/-- The machine with another program, from the start. -/
def load (m : Machine) (image : List Byte) : Except Error Machine :=
  create m.dialect m.seed image

/-- The machine with its program, from the start. -/
def reset (m : Machine) : Except Error Machine :=
  m.load m.image

/-- Where the machine halted. -/
def haltAddress (m : Machine) : Option Word :=
  m.error.map fun _ => m.state.fault.address

/-- One step. A machine that has halted is not stepped again. -/
def step (m : Machine) : Machine × StepReport :=
  match m.status with
  | .halted => (m, ⟨.halted, m.error, m.haltAddress⟩)
  | _ =>
    let s := m.state.step m.dialect
    match s.diagnosis with
    | .ok (some e) =>
      ({m with state := s, status := .halted, error := some e},
        ⟨.halted, some e, some s.fault.address⟩)
    | _ =>
      let status := if s.waiting then .waiting else .ready
      ({m with state := s, status := status}, ⟨status, none, none⟩)

/-- One tick of the clock. -/
def tick (m : Machine) : Machine :=
  {m with state := m.state.tick}

/-- The machine with another keypad. -/
def withKeypad (m : Machine) (k : Keypad) : Machine :=
  {m with state := m.state.withKeypad k}

/-- The machine with the whole keypad replaced. -/
def setKeys (m : Machine) (keys : KeyStates) : Except Refusal Machine :=
  (Keypad.ofStates keys).map m.withKeypad

/-- The machine with one key down or up. -/
def pressKey (m : Machine) (key : Int) (down : Bool) : Except Refusal Machine :=
  (m.state.keypad.press key down).map m.withKeypad

/-- The machine with its draw flag cleared, and what the flag was. -/
def takeDrawn (m : Machine) : Machine × Bool :=
  ({m with state := {m.state with drawn := false}}, m.state.drawn)

/-- Whether the buzzer sounds. -/
def buzzing (m : Machine) : Bool := m.state.soundTimer ≠ 0

/-- The reply to a call that gives a machine or fails. -/
def settle {ε : Type} (m : Machine) (failure : ε → Reply) : Except ε Machine → Machine × Reply
  | .ok n => (n, .done)
  | .error e => (m, failure e)

/-- The machine after a call, and the reply. -/
def call (m : Machine) : Call → Machine × Reply
  | .step => let (n, r) := m.step; (n, .stepped r)
  | .tick => (m.tick, .done)
  | .setKeys keys => m.settle .refused (m.setKeys keys)
  | .pressKey key down => m.settle .refused (m.pressKey key down)
  | .takeDrawn => let (n, changed) := m.takeDrawn; (n, .drawn changed)
  | .load image => m.settle .failed (m.load image)
  | .reset => m.settle .failed m.reset

/-- The machine after a list of calls, and their replies. -/
def run (m : Machine) : List Call → Machine × List Reply
  | [] => (m, [])
  | c :: rest =>
    let (n, r) := m.call c
    let (final, replies) := n.run rest
    (final, r :: replies)

theorem run_append (m : Machine) (a b : List Call) :
    m.run (a ++ b) =
      (((m.run a).1.run b).1, (m.run a).2 ++ ((m.run a).1.run b).2) := by
  induction a generalizing m with
  | nil => rfl
  | cons c rest ih => simp [run, ih]

end Machine
end Chip8
