import Chip8.Log.Basic
import Chip8.Log.Registers
import Chip8.Machine

/-!
Running a machine frame by frame.

A frame hands the machine its keys, lets it make up to a number of steps, and ticks the clock once.
It is cut short when the program waits for a key, and the run ends for good when the machine halts.
`Run` counts what was done: completed frames, and instructions, which are the steps that neither
looked at the keypad nor halted. It touches its machine by calls alone (`ask`), and keeps them.
`advance_add` says that frames compose, and `advance_of_ended` that nothing happens to a run that is
over.
-/
namespace Chip8.Frames

/-- Ticks of the clock in a second. -/
def tickRate : Nat := 60

/-- The steps of a frame for a rate of instructions and a rate of frames, at least one. -/
def stepsPerFrame (instructions frames : Number) : Except Refusal Number :=
  (instructions.floorDiv frames).map Number.atLeastOne

/-- How a run stands. -/
inductive Ending where
  /-- It can go on. -/
  | running
  | halted (r : StepReport)
  /-- The host's keys were refused. -/
  | refused (r : Refusal)
  deriving DecidableEq, Repr

structure Run where
  machine : Machine
  /-- The calls made of the machine, the last one first. -/
  asked : List Call
  /-- Frames completed. -/
  frames : Nat
  /-- Instructions executed. -/
  instructions : Nat
  ending : Ending

/-- The keys that a host hands in at each frame, or for which it is refused; a host may also leave
the keypad alone. -/
abbrev Keys := Option (Nat → Except Refusal KeyStates)

namespace Run

/-- A run that has not begun. -/
def start (m : Machine) : Run := ⟨m, [], 0, 0, .running⟩

/-- The calls made of the machine, in their order. -/
def calls (r : Run) : List Call := r.asked.reverse

/-- The run after a call of its machine, and the reply. -/
def ask (r : Run) (c : Call) : Run × Reply :=
  let (m, reply) := r.machine.call c
  ({r with machine := m, asked := c :: r.asked}, reply)

/-- The run after at most a number of steps of one frame. -/
def steps : Nat → Run → Run
  | 0, r => r
  | n + 1, r =>
    let polling := r.machine.status = .waiting
    let (s, reply) := r.ask .step
    let counted := {s with instructions := if polling then s.instructions else s.instructions + 1}
    match reply with
    | .stepped ⟨.halted, error, address⟩ => {s with ending := .halted ⟨.halted, error, address⟩}
    | .stepped ⟨.ready, _, _⟩ => steps n counted
    | _ => counted

/-- The run with the keys of a frame handed in. -/
def keyed (keys : Keys) (r : Run) : Run :=
  match keys with
  | none => r
  | some f =>
    match f r.frames with
    | .error e => {r with ending := .refused e}
    | .ok states =>
      match r.ask (.setKeys states) with
      | (s, .refused e) => {s with ending := .refused e}
      | (s, _) => s

/-- The run with its frame closed by a tick, unless the run is over. -/
def close (r : Run) : Run :=
  match r.ending with
  | .running => {(r.ask .tick).1 with frames := r.frames + 1}
  | _ => r

/-- The run after one frame. -/
def frame (limit : Nat) (keys : Keys) (r : Run) : Run :=
  let s := r.keyed keys
  match s.ending with
  | .running => (s.steps limit).close
  | _ => s

/-- The run after more frames, as many as can be had. -/
def advance (limit : Nat) (keys : Keys) : Nat → Run → Run
  | 0, r => r
  | n + 1, r =>
    match r.ending with
    | .running => advance limit keys n (r.frame limit keys)
    | _ => r

theorem advance_of_ended {limit : Nat} {keys : Keys} {r : Run} (h : r.ending ≠ .running) (n : Nat) :
    r.advance limit keys n = r := by
  cases n with
  | zero => rfl
  | succ n => rw [advance]; split <;> simp_all

theorem advance_add (limit : Nat) (keys : Keys) (a b : Nat) (r : Run) :
    r.advance limit keys (a + b) = (r.advance limit keys a).advance limit keys b := by
  induction a generalizing r with
  | zero => rw [Nat.zero_add]; rfl
  | succ a ih =>
    rw [Nat.succ_add, advance, advance]
    split
    · exact ih _
    · next h => exact (advance_of_ended h b).symm

end Run

/-- A machine run for a number of frames; a number below one is none. -/
def run (m : Machine) (frames limit : Int) (keys : Keys) : Run :=
  (Run.start m).advance limit.toNat keys frames.toNat

/-- A run that is refused in its first frame for the number of steps, after the keys are set. -/
def Run.refuse (keys : Keys) (e : Refusal) (r : Run) : Run :=
  let s := r.keyed keys
  match s.ending with
  | .running => {s with ending := .refused e}
  | _ => s

/-- A machine run as a host asks for it. The number of steps is not looked at before there is a
frame, and a text has no groups of three digits to be shown. -/
def runValues (m : Machine) (frames limit : Value) (shown : Bool) (keys : Keys) : Run :=
  match frames.whole, limit.whole with
  | .ok n, .ok k => run m n k keys
  | .ok n, .error e => if n ≤ 0 then Run.start m else (Run.start m).refuse keys e
  | .error e, _ =>
    match frames, shown with
    | .string _, true => {Run.start m with ending := .refused .noGroups}
    | _, _ => {Run.start m with ending := .refused e}

/-- The keys that a host hands in as a list; past its end no key is down. -/
def keysOfValue (v : Value) : Keys :=
  some fun n => do
    match (← v.items)[n]? with
    | some keys => KeyStates.ofValue keys
    | none => return Keypad.released.toStates

/-- What a host is told about a run. -/
structure Summary where
  frames : Nat
  instructions : Nat
  status : Status
  error : Option Error
  deriving DecidableEq, Repr

/-- The summary of a run, unless the host's keys were refused. -/
def Run.summary (r : Run) : Except Refusal Summary :=
  match r.ending with
  | .running => .ok ⟨r.frames, r.instructions, r.machine.status, none⟩
  | .halted result => .ok ⟨r.frames, r.instructions, result.status, result.error⟩
  | .refused e => .error e

/-- What a run tells the log: where it halted and how the registers stood, or that it finished. -/
def Run.messages (r : Run) : List Log.Message :=
  match r.ending with
  | .running =>
    [⟨.info, "Run finished",
      [("frames", .integer r.frames), ("instructions", .integer r.instructions),
        ("status", .string r.machine.status.text)]⟩]
  | .halted result =>
    let address := result.address.getD 0
    [⟨.error, (result.error.map Error.message).getD "",
      [("pc", .integer address.toNat),
        ("opcode", .integer (r.machine.state.wordAt address).toNat)]⟩,
      ⟨.debug, r.machine.state.registerDump, []⟩]
  | .refused _ => []

end Chip8.Frames
