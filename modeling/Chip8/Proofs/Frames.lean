import Chip8.Frames
import Chip8.Proofs.Session

/-!
What a run of frames does to its machine.

A run asks nothing of a machine that a host could not: its machine is the one that it was given
after the calls on record, and if it is over because that machine halted, it ends with what the
machine told last. `Run.Driven` says both, and is kept by every part of a run.
-/
namespace Chip8.Frames

/-- A run of machine `m` by the calls on record, which ends with what its machine told last if that
halted. -/
structure Run.Driven (m : Machine) (r : Run) : Prop where
  calls : r.machine = (m.run r.calls).1
  halted : ∀ result, r.ending = .halted result →
    r.machine.status = .halted ∧ result = r.machine.told

namespace Run
variable {d : Dialect} {seed : BitVec 64} {m : Machine} {r : Run} {keys : Keys}

theorem calls_ask (r : Run) (c : Call) : (r.ask c).1.calls = r.calls ++ [c] := List.reverse_cons

theorem driven_start (m : Machine) : (start m).Driven m where
  calls := rfl
  halted := fun _ h => by cases h

theorem Driven.consistent (h : r.Driven m) (hm : m.Consistent d seed) :
    r.machine.Consistent d seed := by
  rw [h.calls]
  exact hm.run r.calls

/-- One more call. -/
theorem Driven.calls_ask (h : r.Driven m) (c : Call) :
    (r.ask c).1.machine = (m.run (r.ask c).1.calls).1 := by
  rw [Run.calls_ask, Machine.run_append, ← h.calls]
  rfl

/-- A run that has not halted, with its calls on record. -/
theorem Driven.of_not_halted (h : r.machine = (m.run r.calls).1)
    (hr : ∀ result, r.ending ≠ .halted result) : r.Driven m where
  calls := h
  halted := fun result he => absurd he (hr result)

theorem Driven.refused (h : r.Driven m) (e : Refusal) :
    ({r with ending := .refused e} : Run).Driven m :=
  .of_not_halted h.calls nofun

theorem Driven.ask (h : r.Driven m) (hr : r.ending = .running) (c : Call) : (r.ask c).1.Driven m :=
  .of_not_halted (h.calls_ask c) fun result he => by
    change r.ending = .halted result at he
    rw [hr] at he
    cases he

/-- The run after a step that is counted unless it looked at the keypad. -/
def counted (r : Run) : Run :=
  {(r.ask .step).1 with
    instructions := if r.machine.status = .waiting then r.instructions else r.instructions + 1}

/-- A run makes a step, and goes on if its machine is ready after it. -/
theorem steps_succ (h : r.machine.Consistent d seed) (limit : Nat) :
    r.steps (limit + 1) =
      match r.machine.step.1.status with
      | .halted => {(r.ask .step).1 with ending := .halted r.machine.step.1.told}
      | .waiting => r.counted
      | .ready => r.counted.steps limit := by
  have hask : r.ask .step = ((r.ask .step).1, .stepped r.machine.step.1.told) :=
    Prod.ext rfl (congrArg Reply.stepped h.report_step)
  rw [steps, hask, Machine.told]
  cases r.machine.step.1.status <;> rfl

theorem Driven.steps (hm : m.Consistent d seed) (h : r.Driven m) (hr : r.ending = .running)
    (count : Nat) : (r.steps count).Driven m := by
  induction count generalizing r with
  | zero => exact h
  | succ count ih =>
    have hnext : (r.ask .step).1.Driven m := h.ask hr .step
    rw [steps_succ (h.consistent hm)]
    split
    · next hhalted =>
      refine ⟨hnext.calls, fun result he => ?_⟩
      cases he
      exact ⟨hhalted, rfl⟩
    · exact ⟨hnext.calls, hnext.halted⟩
    · exact ih ⟨hnext.calls, hnext.halted⟩ hr

theorem Driven.keyed (h : r.Driven m) (hr : r.ending = .running) (keys : Keys) :
    (r.keyed keys).Driven m := by
  cases keys with
  | none => exact h
  | some f =>
    rw [Run.keyed]
    cases f r.frames with
    | error e => exact h.refused e
    | ok states =>
      have hnext := h.ask hr (.setKeys states)
      dsimp only
      split
      · next hask =>
        rw [hask] at hnext
        exact hnext.refused _
      · next hask =>
        rw [hask] at hnext
        exact hnext

theorem Driven.close (h : r.Driven m) : r.close.Driven m := by
  rw [Run.close]
  split
  · next hr => exact ⟨h.calls_ask .tick, (h.ask hr .tick).halted⟩
  · exact h

theorem Driven.frame (hm : m.Consistent d seed) (h : r.Driven m) (hr : r.ending = .running)
    (limit : Nat) : (r.frame limit keys).Driven m := by
  have hkeyed := h.keyed hr keys
  rw [Run.frame]
  split
  · next hs => exact (hkeyed.steps hm hs limit).close
  · exact hkeyed

theorem Driven.advance (hm : m.Consistent d seed) (h : r.Driven m) (limit frames : Nat) :
    (r.advance limit keys frames).Driven m := by
  induction frames generalizing r with
  | zero => exact h
  | succ frames ih =>
    rw [Run.advance]
    split
    · next hr => exact ih (h.frame hm hr limit)
    · exact h

theorem Driven.refuse (h : r.Driven m) (hr : r.ending = .running) (e : Refusal) :
    (r.refuse keys e).Driven m := by
  have hkeyed := h.keyed hr keys
  rw [Run.refuse]
  split
  · exact hkeyed.refused e
  · exact hkeyed

end Run

/-- However a host asks for it. -/
theorem driven_runValues {d : Dialect} {seed : BitVec 64} {m : Machine} (hm : m.Consistent d seed)
    (frames limit : Value) (shown : Bool) (keys : Keys) :
    (runValues m frames limit shown keys).Driven m := by
  have hstart := Run.driven_start m
  rw [runValues]
  split
  · exact hstart.advance hm _ _
  · split
    · exact hstart
    · exact hstart.refuse rfl _
  · split
    · exact hstart.refused _
    · exact hstart.refused _

end Chip8.Frames
