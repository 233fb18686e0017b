import Chip8.Proofs.Course

/-!
What a host is told about a run of frames.

A run that halts tells the error, and a run that goes through its frames tells none, as if a machine
could halt only in a step of the run. `Idle` names the runs for which this is not so: they make no
step, and their machine had halted before. The main result `summary_error` is that the summary has
the status of the machine, and its error too, exactly if the run is not idle. The other main result
`run_adds` is that runs compose: a run that has not halted has nothing to remember but what its
machine and its counts say, so that the next run goes on as if there had been no break.
-/
namespace Chip8

namespace Frames
variable {d : Dialect} {seed : BitVec 64} {m : Machine} {keys : Keys}
  {limit number left : Nat} {made : List Call}

/-! ### How a run leaves its machine -/

/-- A run that makes no step of a machine that has halted. -/
def Idle (m : Machine) (frames limit : Int) : Prop :=
  m.status = .halted ∧ (frames ≤ 0 ∨ limit ≤ 0)

instance (m : Machine) (frames limit : Int) : Decidable (Idle m frames limit) :=
  inferInstanceAs (Decidable (m.status = .halted ∧ (frames ≤ 0 ∨ limit ≤ 0)))

theorem Keys.valid_none (frames : Nat) : Keys.Valid none frames := fun f hf => by cases hf

theorem Keys.status_calls (keys : Keys) (number : Nat) (m : Machine) :
    (m.run (keys.calls number)).1.status = m.status := by
  rcases keys.calls_cases number with h | ⟨states, h⟩
  · rw [h]
    rfl
  · rw [h]
    simp only [Machine.run, Machine.call, Machine.setKeys]
    cases Keypad.ofStates states <;> rfl

/-- A course that ticks for every frame leaves a machine that has not halted, if the machine had not
or makes a step. -/
theorem Course.status_ne_halted (hc : Course limit keys number left m made)
    (hticks : made.count .tick = left) (h : m.status ≠ .halted ∨ 0 < limit ∧ 0 < left) :
    (m.run made).1.status ≠ .halted := by
  induction hc with
  | finish =>
    rcases h with h | ⟨-, hpos⟩
    · exact h
    · cases hpos
  | @frame number left count m rest hframe hrest ih =>
    have hstatus : (m.run (keys.frame number count)).1.tick.status ≠ .halted := by
      change (m.run (keys.frame number count)).1.status ≠ .halted
      rw [keys.run_frame]
      rcases Nat.eq_zero_or_pos count with rfl | hpos
      · have hlimit : limit = 0 := by
          apply Nat.eq_zero_of_not_pos
          intro hpos
          exact Nat.lt_irrefl 0 (hframe.cut hpos).1
        change (m.run (keys.calls number)).1.status ≠ .halted
        rw [keys.status_calls]
        exact h.resolve_right fun hsteps => by omega
      · exact hframe.running hpos
    rw [count_tick_frame_tick] at hticks
    rw [Machine.run_append]
    exact ih (by omega) (.inl hstatus)
  | halt hframe =>
    rw [keys.count_tick_frame] at hticks
    cases hticks

/-- A course without steps ticks for every frame, and leaves the status of the machine. -/
theorem Course.status_eq (hc : Course limit keys number left m made) (h : limit = 0 ∨ left = 0) :
    made.count .tick = left ∧ (m.run made).1.status = m.status := by
  induction hc with
  | finish => exact ⟨rfl, rfl⟩
  | @frame number left count m rest hframe hrest ih =>
    have hlimit : limit = 0 := h.resolve_right (Nat.succ_ne_zero left)
    have hnone : count = 0 := Nat.eq_zero_of_le_zero (hlimit ▸ hframe.le)
    obtain ⟨hticks, hstatus⟩ := ih (.inl hlimit)
    rw [count_tick_frame_tick, Machine.run_append, hticks]
    refine ⟨rfl, hstatus.trans ?_⟩
    rw [hnone, keys.run_frame]
    exact keys.status_calls number m
  | @halt number left count m hframe =>
    have hlt := hframe.lt
    omega

/-- What a run tells about an error is what the machine says, unless it makes no step. -/
theorem Course.error_eq (hm : m.Consistent d seed) (hc : Course limit keys number left m made)
    (h : m.status ≠ .halted ∨ 0 < limit ∧ 0 < left) :
    (if made.count .tick = left then none else (m.run made).1.error) = (m.run made).1.error := by
  split
  · next hticks =>
    have hruns := hc.status_ne_halted hticks h
    rw [ne_eq, (hm.run made).raised_iff, Bool.not_eq_true, ← (hm.run made).error_eq_none_iff] at hruns
    exact hruns.symm
  · rfl

/-! ### A run after a run -/

/-- The keys of the frames from some frame on. -/
def Keys.since (keys : Keys) (frames : Nat) : Keys :=
  keys.map fun f number => f (frames + number)

/-- A run that goes on from another, with what that has on record before its own. -/
def Run.since (r before : Run) : Run :=
  {r with
    asked := r.asked ++ before.asked
    frames := before.frames + r.frames
    instructions := before.instructions + r.instructions}

theorem Keys.Valid.since {frames : Nat} (h : keys.Valid (frames + left)) :
    (keys.since frames).Valid left := by
  intro f hf number hnumber
  obtain ⟨g, hg, rfl⟩ := Option.map_eq_some_iff.1 hf
  exact h g hg _ (by omega)

namespace Run

theorem ask_since (r before : Run) (c : Call) :
    (r.since before).ask c = ((r.ask c).1.since before, (r.ask c).2) := rfl

theorem keyed_since (r before : Run) (keys : Keys) :
    (r.since before).keyed keys = (r.keyed (keys.since before.frames)).since before := by
  cases keys with
  | none => rfl
  | some f =>
    have hframes : (r.since before).frames = before.frames + r.frames := rfl
    simp only [keyed, Keys.since, Option.map_some, hframes, ask_since]
    cases f (before.frames + r.frames) with
    | error e => rfl
    | ok states =>
      dsimp only
      generalize r.ask (.setKeys states) = asked
      obtain ⟨s, reply⟩ := asked
      cases reply <;> rfl

theorem steps_since (r before : Run) (count : Nat) :
    (r.since before).steps count = (r.steps count).since before := by
  induction count generalizing r with
  | zero => rfl
  | succ count ih =>
    have hcount (s : Run) :
        (if r.machine.status = .waiting then before.instructions + s.instructions
          else before.instructions + s.instructions + 1) =
        before.instructions +
          if r.machine.status = .waiting then s.instructions else s.instructions + 1 := by
      split <;> rfl
    have hmachine : (r.since before).machine = r.machine := rfl
    rw [steps, steps, ask_since, hmachine]
    generalize r.ask .step = asked
    obtain ⟨s, reply⟩ := asked
    dsimp only
    split
    · rfl
    · rw [← ih]
      simp only [since, hcount]
    · simp only [since, hcount]

theorem close_since (r before : Run) : (r.since before).close = r.close.since before := by
  have hending : (r.since before).ending = r.ending := rfl
  rw [close, close, hending, ask_since]
  cases r.ending with
  | running => simp only [since, Nat.add_assoc]
  | _ => rfl

theorem frame_since (r before : Run) (keys : Keys) (limit : Nat) :
    (r.since before).frame limit keys =
      (r.frame limit (keys.since before.frames)).since before := by
  rw [frame, frame, keyed_since]
  generalize r.keyed (keys.since before.frames) = s
  have hending : (s.since before).ending = s.ending := rfl
  rw [hending, steps_since, close_since]
  cases s.ending <;> rfl

theorem advance_since (r before : Run) (keys : Keys) (limit count : Nat) :
    (r.since before).advance limit keys count =
      (r.advance limit (keys.since before.frames) count).since before := by
  induction count generalizing r with
  | zero => rfl
  | succ count ih =>
    rw [advance, advance, frame_since, ih]
    cases h : r.ending <;> simp only [since, h]

end Run

/-- The summary of a run from a frame on, with what was counted before. -/
def Summary.since (s : Summary) (frames instructions : Nat) : Summary :=
  {s with frames := frames + s.frames, instructions := instructions + s.instructions}

theorem Run.summary_since (r before : Run) :
    (r.since before).summary = r.summary.map (·.since before.frames before.instructions) := by
  cases h : r.ending <;> simp only [summary, since, h] <;> rfl

/-- A course that does not tick for every frame leaves a machine that has halted. -/
theorem Course.status_of_lt (hm : m.Consistent d seed) (hc : Course limit keys number left m made)
    (hlt : made.count .tick < left) : (m.run made).1.status = .halted := by
  rcases hc.ends hm with ⟨hall, -⟩ | ⟨-, before, rfl, -, hhalted⟩
  · omega
  · rw [(hm.run before).report_step] at hhalted
    rw [Machine.run_append]
    exact hhalted

/-- A run with keys that describe a keypad is not refused. -/
theorem exists_summary (hm : m.Consistent d seed) (frames limit : Int)
    (hkeys : keys.Valid frames.toNat) :
    (run m frames limit keys).machine.Consistent d seed ∧
      ∃ s, (run m frames limit keys).summary = .ok s := by
  obtain ⟨made, -, -, hmachine, hsummary⟩ := exists_course hm frames limit hkeys
  rw [hmachine]
  exact ⟨hm.run made, _, hsummary⟩

/-- A run that does not halt in its first frames goes on like a run that begins after them. -/
theorem run_add (hm : m.Consistent d seed) (a b : Nat) (limit : Int) (hkeys : keys.Valid a)
    {s : Summary} (hs : (run m a limit keys).summary = .ok s) (hh : s.status ≠ .halted) :
    let first := run m a limit keys
    first.frames = s.frames ∧ first.instructions = s.instructions ∧
      run m (a + b) limit keys = (run first.machine b limit (keys.since a)).since first := by
  intro first
  rw [← Nat.zero_add a] at hkeys
  obtain ⟨made, hcourse, hrun⟩ := course_advance (r := .start m) hm rfl hkeys limit.toNat
  change first = _ at hrun
  have hticks : made.count .tick = a := by
    rcases hcourse.ends hm with ⟨hall, -⟩ | ⟨hlt, -⟩
    · exact hall
    · change first.summary = .ok s at hs
      rw [hrun, if_neg (by omega)] at hs
      obtain rfl := Except.ok.inj hs
      exact absurd (hcourse.status_of_lt hm hlt) hh
  rw [if_pos hticks] at hrun
  have hending : first.ending = .running := by rw [hrun]
  have hframes : first.frames = a := by
    rw [hrun]
    exact (Nat.zero_add _).trans hticks
  -- a run that goes on has nothing to remember but its machine, its calls and its counts
  have hstart : (Run.start first.machine).since first = first := by
    rw [Run.since, Run.start, ← hending]
    rfl
  have hsum : s = ⟨first.frames, first.instructions, first.machine.status, none⟩ := by
    change first.summary = .ok s at hs
    rw [Run.summary, hending] at hs
    exact (Except.ok.inj hs).symm
  refine ⟨by rw [hsum], by rw [hsum], ?_⟩
  calc run m (a + b) limit keys
      = (Run.start m).advance limit.toNat keys (a + b) := by rw [run, ← Int.natCast_add, Int.toNat_natCast]
    _ = first.advance limit.toNat keys b := Run.advance_add ..
    _ = ((Run.start first.machine).since first).advance limit.toNat keys b := by rw [hstart]
    _ = ((Run.start first.machine).advance limit.toNat (keys.since a) b).since first := by
        rw [Run.advance_since, hframes]

end Frames

open Frames

/-- **A run tells of a fault, unless it does nothing.** The summary has the error of the machine
after the run. Only a run that makes no step of a halted machine has none. -/
theorem summary_error (d : Dialect) (seed : BitVec 64) (image : List Byte)
    (h : image.length ≤ maxProgramSize) :
    ∃ m, Machine.create d seed image = .ok m ∧
      ∀ (calls : List Call) (frames limit : Int) (shown : Bool) (keys : Keys),
        keys.Valid frames.toNat →
        let p := (m.run calls).1
        let r := runValues p (.integer frames) (.integer limit) shown keys
        ∃ summary, r.summary = .ok summary ∧ summary.status = r.machine.status ∧
          (Idle p frames limit →
            summary.status = .halted ∧ summary.error = none ∧ r.machine.error ≠ none) ∧
          (¬ Idle p frames limit →
            summary.error = r.machine.error ∧ (summary.status = .halted ↔ summary.error ≠ none)) := by
  obtain ⟨m, hm⟩ := Machine.create_of_le d seed h
  refine ⟨m, hm, fun calls frames limit shown keys hkeys => ?_⟩
  intro p r
  have hp : p.Consistent d seed := (Machine.consistent_create hm).run calls
  obtain ⟨made, hcourse, -, hmachine, hsummary⟩ := exists_course hp frames limit hkeys
  have hr : r.machine = (p.run made).1 := hmachine
  have hlast : (p.run made).1.Consistent d seed := hp.run made
  have herror : (p.run made).1.status = .halted ↔ (p.run made).1.error ≠ none := by
    rw [hlast.raised_iff, ne_eq, hlast.error_eq_none_iff, Bool.not_eq_false]
  refine ⟨_, hsummary, by rw [hr], fun hidle => ?_, fun hbusy => ?_⟩
  · obtain ⟨hhalted, hnone⟩ := hidle
    obtain ⟨hticks, hstatus⟩ := hcourse.status_eq (by omega)
    rw [hhalted] at hstatus
    rw [hr, if_pos hticks]
    exact ⟨hstatus, rfl, herror.1 hstatus⟩
  · have hsteps : p.status ≠ .halted ∨ 0 < limit.toNat ∧ 0 < frames.toNat := by
      by_cases hhalted : p.status = .halted
      · have hsome : ¬ (frames ≤ 0 ∨ limit ≤ 0) := fun hnone => hbusy ⟨hhalted, hnone⟩
        exact .inr (by omega)
      · exact .inl hhalted
    rw [hr, hcourse.error_eq hp hsteps]
    exact ⟨rfl, herror⟩

/-- A program halts at its first word. A run of no frames tells that the machine has halted, and of
no error. -/
theorem summary_without_error :
    let image : List Byte := [0xFF, 0xFF]
    ∃ m, Machine.create .modern 0 image = .ok m ∧
      let r := run (m.run [.step]).1 0 10 none
      r.summary.toOption = some ⟨0, 0, .halted, none⟩ ∧ r.machine.status = .halted ∧
        r.machine.error = some (.invalidOpcode (some 0x200) 0xFFFF) := by
  intro image
  have h : image.length ≤ maxProgramSize := by decide
  obtain ⟨m, hm⟩ := Machine.create_of_le .modern 0 h
  have heval : ((Machine.create .modern 0 image).toOption.any fun m =>
      let r := run (m.run [.step]).1 0 10 none
      decide (r.summary.toOption = some ⟨0, 0, .halted, none⟩ ∧ r.machine.status = .halted ∧
        r.machine.error = some (.invalidOpcode (some 0x200) 0xFFFF))) = true := by
    decide +kernel
  rw [hm] at heval
  exact ⟨m, hm, of_decide_eq_true heval⟩

/-- The same machine, run with one step in a frame and with none. -/
theorem summary_error_halted :
    let image : List Byte := [0xFF, 0xFF]
    let error : Error := .invalidOpcode (some 0x200) 0xFFFF
    image.length ≤ maxProgramSize ∧ Keys.Valid none 2 ∧
      ∃ m, Machine.create .modern 0 image = .ok m ∧
        let p := (m.run [.step, .tick]).1
        let stepping := runValues p (.integer 2) (.integer 1) true none
        let ticking := runValues p (.integer 2) (.integer 0) true none
        ¬ Idle p 2 1 ∧ (∃ s, stepping.summary = .ok s ∧ s.status = .halted ∧ s.error = some error) ∧
          Idle p 2 0 ∧ ∃ s, ticking.summary = .ok s ∧ s.status = .halted ∧ s.error = none := by
  intro image error
  have h : image.length ≤ maxProgramSize := by decide
  have hkeys : Keys.Valid none 2 := Keys.valid_none 2
  have heval : ((Machine.create .modern 0 image).toOption.any fun m =>
      let p := (m.run [.step, .tick]).1
      let stepping := runValues p (.integer 2) (.integer 1) true none
      decide ((¬ Idle p 2 1 ∧ Idle p 2 0) ∧ stepping.machine.error = some error)) = true := by
    decide +kernel
  obtain ⟨m, hm, htells⟩ := summary_error .modern 0 image h
  rw [hm] at heval
  obtain ⟨⟨hbusy, hidle⟩, herror⟩ := of_decide_eq_true heval
  obtain ⟨s, hs, -, -, hstepping⟩ := htells [.step, .tick] 2 1 true none hkeys
  obtain ⟨t, ht, -, hticking, -⟩ := htells [.step, .tick] 2 0 true none hkeys
  obtain ⟨hsame, hhalted⟩ := hstepping hbusy
  rw [herror] at hsame
  obtain ⟨hthalted, hnone, -⟩ := hticking hidle
  refine ⟨h, hkeys, m, hm, hbusy, ⟨s, hs, hhalted.2 ?_, hsame⟩, hidle, t, ht, hthalted, hnone⟩
  rw [hsame]
  exact Option.some_ne_none error

/-- **Runs compose.** A run that does not end with a halted machine, and one of more frames after it
with the keys of these, come to one run of all the frames. -/
theorem run_adds (d : Dialect) (seed : BitVec 64) (image : List Byte)
    (h : image.length ≤ maxProgramSize) :
    ∃ m, Machine.create d seed image = .ok m ∧
      ∀ (calls : List Call) (a b : Nat) (limit : Int) (keys : Keys), keys.Valid (a + b) →
        let p := (m.run calls).1
        let first := run p a limit keys
        let second := run first.machine b limit (keys.map fun f number => f (a + number))
        let whole := run p (a + b) limit keys
        ∃ s, first.summary = .ok s ∧
          (s.status ≠ .halted → ∃ t u, second.summary = .ok t ∧ whole.summary = .ok u ∧
            second.machine = whole.machine ∧ s.frames + t.frames = u.frames ∧
            s.instructions + t.instructions = u.instructions ∧
            t.status = u.status ∧ t.error = u.error) := by
  obtain ⟨m, hm⟩ := Machine.create_of_le d seed h
  refine ⟨m, hm, fun calls a b limit keys hkeys => ?_⟩
  intro p first second whole
  have hp : p.Consistent d seed := (Machine.consistent_create hm).run calls
  have hfirst : keys.Valid a := fun f hf number hnumber => hkeys f hf number (by omega)
  obtain ⟨hnext, s, hs⟩ := exists_summary hp a limit hfirst
  obtain ⟨-, t, ht⟩ := exists_summary hnext b limit hkeys.since
  change second.summary = .ok t at ht
  refine ⟨s, hs, fun hh => ⟨t, t.since s.frames s.instructions, ht, ?_⟩⟩
  obtain ⟨hframes, hinstructions, hwhole⟩ := run_add hp a b limit hfirst hs hh
  change whole = second.since first at hwhole
  rw [hwhole, Run.summary_since, ht, ← hframes, ← hinstructions]
  exact ⟨rfl, rfl, rfl, rfl, rfl, rfl⟩

/-- A program waits for a key that goes down in the fourth of five frames. The first two frames end
while it waits. -/
theorem run_adds_awaited :
    let image : List Byte := [0xF1, 0x0A, 0x71, 0x01, 0x12, 0x02]
    let keys : Keys := .ofKeypads fun number => Keypad.released.set 9 (number == 3)
    image.length ≤ maxProgramSize ∧ keys.Valid (2 + 3) ∧
      ∃ m, Machine.create .modern 0 image = .ok m ∧
        let first := run m 2 4 keys
        let second := run first.machine 3 4 (keys.map fun f number => f (2 + number))
        let whole := run m 5 4 keys
        ∃ s t u, first.summary = .ok s ∧ s.status = .waiting ∧ second.summary = .ok t ∧
          whole.summary = .ok u ∧ second.machine = whole.machine ∧
          s.frames + t.frames = 5 ∧ s.instructions + t.instructions = 8 ∧ t.status = .ready := by
  intro image keys
  have h : image.length ≤ maxProgramSize := by decide
  have hkeys : keys.Valid (2 + 3) := Keys.valid_ofKeypads _ 5
  have heval : ((Machine.create .modern 0 image).toOption.any fun m =>
      decide ((run m 2 4 keys).summary.toOption = some ⟨2, 1, .waiting, none⟩ ∧
        (run m 5 4 keys).summary.toOption = some ⟨5, 8, .ready, none⟩)) = true := by
    decide +kernel
  obtain ⟨m, hm, hadds⟩ := run_adds .modern 0 image h
  rw [hm] at heval
  obtain ⟨hfirst, hwhole⟩ := of_decide_eq_true heval
  obtain ⟨s, hs, hgoes⟩ := hadds [] 2 3 4 keys hkeys
  change (run m 2 4 keys).summary = .ok s at hs
  rw [hs] at hfirst
  have hwaiting : s.status = .waiting := by rw [Option.some.inj hfirst]
  have hrun : s.status ≠ .halted := by
    rw [hwaiting]
    decide
  obtain ⟨t, u, ht, hu, hmachine, hframes, hinstructions, hstatus, -⟩ := hgoes hrun
  change (run m 5 4 keys).summary = .ok u at hu
  rw [hu] at hwhole
  rw [Option.some.inj hwhole] at hframes hinstructions hstatus
  exact ⟨h, hkeys, m, hm, s, t, u, hs, hwaiting, ht, hu, hmachine, hframes, hinstructions, hstatus⟩

end Chip8
