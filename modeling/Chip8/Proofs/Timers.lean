import Chip8.Proofs.Executed
import Chip8.Proofs.Restart

/-!
Timers.

A machine has two timers, and they obey one law. `Machine.lastSet` is what a program gave a timer
last, and the number of ticks since. A step writes a timer exactly if it executes the instruction
that sets it (`timer_step`), and a tick takes one off until nothing is left (`toNat_timer_tick`). So
the main result `timers_run_down`: a timer stands at the value it was last set to, less the ticks
since then, and never below zero, whatever else has been executed, awaited or failed.
-/
namespace Chip8

inductive Timer where
  | delay
  | sound
  deriving DecidableEq, Repr

/-- The register that an instruction sets a timer from, if it sets it. -/
def Timer.source? : Timer → Instruction → Option Nibble
  | .delay, .setDelay x => some x
  | .sound, .setSound x => some x
  | _, _ => none

/-- The instruction that sets a timer from a register, `FX15` or `FX18`. -/
def Timer.setter : Timer → Nibble → Instruction
  | .delay => .setDelay
  | .sound => .setSound

def Timer.part : Timer → Part
  | .delay => .delayTimer
  | .sound => .soundTimer

namespace State
variable {d : Dialect} {s : State} {t : Timer}

def timer (s : State) : Timer → Byte
  | .delay => s.delayTimer
  | .sound => s.soundTimer

/-- The value that the next step gives a timer, if it gives it one. -/
def setting? (s : State) (t : Timer) : Option Byte :=
  if s.fault.raised || s.waiting then none
  else (Instruction.decode (s.wordAt s.pc)).bind fun i => (t.source? i).map s.v

end State

theorem Timer.source?_eq_some_iff {t : Timer} {i : Instruction} {x : Nibble} :
    t.source? i = some x ↔ i = t.setter x := by
  cases t <;> cases i <;> simp [source?, setter]

theorem Timer.part_byInstructions (t : Timer) : t.part.ByInstructions := by
  cases t <;> trivial

theorem Timer.exists_setter_of_mem {d : Dialect} {t : Timer} {i : Instruction}
    (h : t.part ∈ i.footprint d) : ∃ x, i = t.setter x := by
  cases t <;> exact Instruction.writtenBy_of_mem h

namespace State
variable {d : Dialect} {s : State} {t : Timer}

/-! ### Steps and ticks -/

/-- The value comes from the instruction that the next step executes. -/
theorem setting?_eq (s : State) (t : Timer) :
    s.setting? t = s.executing?.bind fun i => (t.source? i).map s.v := by
  rw [setting?, executing?, fetched?]
  split <;> rfl

theorem setting?_eq_some_iff {b : Byte} :
    s.setting? t = some b ↔ ∃ x, s.Executes (t.setter x) ∧ s.v x = b := by
  simp only [setting?_eq, Option.bind_eq_some_iff, Option.map_eq_some_iff, executing?_eq_some_iff,
    Timer.source?_eq_some_iff]
  constructor
  · rintro ⟨i, hi, x, rfl, hb⟩
    exact ⟨x, hi, hb⟩
  · rintro ⟨x, hx, hb⟩
    exact ⟨_, hx, x, rfl, hb⟩

theorem timer_of_executes {x : Nibble} (h : s.Executes (t.setter x)) :
    (s.step d).timer t = s.v x := by
  cases t with
  | delay => rw [h.step_eq (d := d) rfl]; rfl
  | sound => rw [h.step_eq (d := d) rfl]; rfl

/-- A step sets a timer only by the instruction that does. -/
theorem timer_step (d : Dialect) (s : State) (t : Timer) :
    (s.step d).timer t = (s.setting? t).getD (s.timer t) := by
  cases hset : s.setting? t with
  | some b =>
    obtain ⟨x, hx, rfl⟩ := setting?_eq_some_iff.1 hset
    exact timer_of_executes hx
  | none =>
    rcases kept_or_executes d s t.part_byInstructions with hkept | ⟨i, hi, hmem, -⟩
    · cases t <;> exact hkept
    · obtain ⟨x, rfl⟩ := Timer.exists_setter_of_mem hmem
      rw [setting?_eq_some_iff.2 ⟨x, hi, rfl⟩] at hset
      cases hset

theorem toNat_countDown (timer : Byte) : (if timer = 0 then 0 else timer - 1).toNat = timer.toNat - 1 := by
  split
  · next h => rw [h]; rfl
  · next h =>
    have hpos : timer.toNat ≠ 0 := fun hz => h (BitVec.eq_of_toNat_eq hz)
    have := timer.isLt
    rw [BitVec.toNat_sub]
    simp only [BitVec.ofNat_eq_ofNat, BitVec.toNat_ofNat]
    omega

theorem toNat_timer_tick (s : State) (t : Timer) : (s.tick.timer t).toNat = (s.timer t).toNat - 1 := by
  cases t <;> exact toNat_countDown _

end State

namespace Machine
variable {d : Dialect} {seed : BitVec 64} {m : Machine}

/-- What a program gave a timer last among some calls, and the ticks since. -/
def lastSet (t : Timer) (m : Machine) : List Call → Option (Byte × Nat)
  | [] => none
  | c :: rest =>
    ((m.call c).1.lastSet t rest).or
      (if c = .step then (m.state.setting? t).map fun b => (b, rest.count .tick) else none)

/-- What is left of a value after a number of ticks. -/
def left (r : Byte × Nat) : Nat := r.1.toNat - r.2

/-! ### Lists of calls -/

/-- A call sets a timer, ticks, or leaves the timer alone. -/
theorem Consistent.left_call (h : m.Consistent d seed) {c : Call} (hc : c.starts = false)
    (t : Timer) (rest : List Call) :
    left ((m.call c).1.state.timer t, rest.count .tick) =
      left ((if c = .step then (m.state.setting? t).map fun b => (b, rest.count .tick)
        else none).getD (m.state.timer t, (c :: rest).count .tick)) := by
  rw [h.state_call_of_not_starts hc]
  cases c with
  | step =>
    rw [if_pos rfl, List.count_cons_of_ne (by decide), State.after, State.timer_step]
    cases m.state.setting? t <;> rfl
  | tick =>
    rw [if_neg (by decide), List.count_cons_self, State.after, left, State.toNat_timer_tick]
    exact Nat.sub_right_comm .. |>.trans (Nat.sub_sub ..)
  | _ =>
    rw [if_neg (by simp), List.count_cons_of_ne (by simp)]
    cases t <;> rfl

theorem Consistent.timer_run (h : m.Consistent d seed) {calls : List Call}
    (hc : ∀ c ∈ calls, c.starts = false) (t : Timer) :
    ((m.run calls).1.state.timer t).toNat =
      left ((m.lastSet t calls).getD (m.state.timer t, calls.count .tick)) := by
  induction calls generalizing m with
  | nil => rfl
  | cons c rest ih =>
    rw [List.forall_mem_cons] at hc
    have hrest := ih (h.call c) hc.2
    rw [lastSet]
    cases hlast : (m.call c).1.lastSet t rest with
    | some r =>
      rw [hlast] at hrest
      exact hrest
    | none =>
      rw [hlast] at hrest
      rw [Option.none_or, ← h.left_call hc.1]
      exact hrest

theorem timer_of_create {image : List Byte} (h : create d seed image = .ok m) (t : Timer) :
    m.state.timer t = 0 := by
  obtain ⟨s, hs, rfl⟩ := create_eq_ok_iff.1 h
  obtain ⟨-, rfl⟩ := boot_eq_ok_iff.1 hs
  cases t <;> rfl

end Machine

/-- **Timers are set by a program and run down by ticks alone.** Since the last start, a timer
stands at the value it was last set to, less the ticks since. -/
theorem timers_run_down (d : Dialect) (seed : BitVec 64) (image : List Byte)
    (h : image.length ≤ maxProgramSize) :
    ∃ m, Machine.create d seed image = .ok m ∧ ∀ earlier hosted : List Call,
      (∀ c, earlier.getLast? = some c → c.starts = true) → (∀ c ∈ hosted, c.starts = false) →
      let p := (m.run earlier).1
      let n := (p.run hosted).1
      ∀ t : Timer, (n.state.timer t).toNat =
        match p.lastSet t hosted with
        | some (value, ticks) => value.toNat - ticks
        | none => 0 := by
  obtain ⟨m, hm⟩ := Machine.create_of_le d seed h
  refine ⟨m, hm, fun earlier hosted hstarted hhosted => ?_⟩
  intro p n t
  obtain ⟨program, hp⟩ := Machine.exists_create_of_started hm hstarted
  have hrun := (Machine.consistent_create hp).timer_run hhosted t
  rw [Machine.timer_of_create hp] at hrun
  rw [hrun]
  cases p.lastSet t hosted with
  | some r => rfl
  | none => exact Nat.zero_sub _

/-- The delay timer is set to nine and the sound timer to two. Then the program waits for a key, and
halts, while the clock ticks on. -/
theorem timers_run_down_halted :
    let image : List Byte := [0x60, 0x09, 0xF0, 0x15, 0x60, 0x02, 0xF0, 0x18, 0xF0, 0x0A, 0xFF, 0xFF]
    let earlier : List Call := [.step, .step, .tick, .reset]
    let hosted : List Call := [.step, .step, .tick, .step, .step, .step, .tick, .step,
      .pressKey 3 true, .tick, .step, .step, .tick, .step, .tick]
    image.length ≤ maxProgramSize ∧ ∃ m, Machine.create .modern 0 image = .ok m ∧
      let n := ((m.run earlier).1.run hosted).1
      n.status = .halted ∧ n.state.delayTimer.toNat = 9 - 5 ∧ n.state.soundTimer.toNat = 2 - 4 := by
  intro image earlier hosted
  have h : image.length ≤ maxProgramSize := by decide
  have hstarted : ∀ c, earlier.getLast? = some c → c.starts = true := by
    intro c hc
    cases hc
    rfl
  have hhosted : ∀ c ∈ hosted, c.starts = false := by decide
  have heval : ((Machine.create .modern 0 image).toOption.any fun m =>
      let p := (m.run earlier).1
      decide ((p.run hosted).1.status = .halted ∧ p.lastSet .delay hosted = some (9, 5) ∧
        p.lastSet .sound hosted = some (2, 4))) = true := by
    decide +kernel
  obtain ⟨m, hm, htimers⟩ := timers_run_down .modern 0 image h
  rw [hm] at heval
  obtain ⟨hhalted, hdelay, hsound⟩ := of_decide_eq_true heval
  have hn := htimers earlier hosted hstarted hhosted
  refine ⟨h, m, hm, hhalted, ?_, ?_⟩
  · have hlaw := hn .delay
    rw [hdelay] at hlaw
    exact hlaw
  · have hlaw := hn .sound
    rw [hsound] at hlaw
    exact hlaw

end Chip8
