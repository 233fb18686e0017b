import Chip8.Proofs.Frames
import Chip8.Proofs.Steps

/-!
What a run of frames asks of its machine.

A run keeps the calls that it makes. `Course` says which they are, by rules: a frame is its keys,
its steps and a tick, it has fewer steps than it could have only if the last one leaves the machine
waiting, and a step that halts is the end of the frame and of the run. The calls of a run are a
course whatever its machine does (`course_advance`), and there is no other that the machine can take
(`Course.unique`). The main result `run_accounts` is that the summary of a run has the number of
ticks among its calls, and of the instructions that its steps executed.
-/
namespace Chip8

namespace Frames
variable {d : Dialect} {seed : BitVec 64} {m : Machine} {r : Run} {keys : Keys}
  {limit count number left : Nat} {made : List Call}

/-! ### The steps of one frame -/

/-- A number of steps complete the frame of a machine. -/
structure Completes (limit : Nat) (m : Machine) (count : Nat) : Prop where
  le : count ≤ limit
  ready : ∀ k, 0 < k → k < count → (m.stepped k).status = .ready
  /-- A frame with fewer steps than it could have ends with one that leaves the machine waiting. -/
  cut : count < limit → 0 < count ∧ (m.stepped count).status = .waiting
  running : 0 < count → (m.stepped count).status ≠ .halted

/-- After a number of steps, the next one in the frame halts the machine or finds it halted. -/
structure Halts (limit : Nat) (m : Machine) (count : Nat) : Prop where
  lt : count < limit
  ready : ∀ k, 0 < k → k < count + 1 → (m.stepped k).status = .ready
  halted : (m.stepped count).step.1.status = .halted

theorem ready_succ (h : m.step.1.status = .ready)
    (hready : ∀ k, 0 < k → k < count → (m.step.1.stepped k).status = .ready) :
    ∀ k, 0 < k → k < count + 1 → (m.stepped k).status = .ready := by
  intro k hpos hk
  obtain ⟨k, rfl⟩ := Nat.exists_eq_add_one.2 hpos
  rw [Machine.stepped_succ]
  cases k with
  | zero => exact h
  | succ k => exact hready (k + 1) (Nat.succ_pos k) (Nat.lt_of_succ_lt_succ hk)

theorem Completes.succ (h : m.step.1.status = .ready) (hc : Completes limit m.step.1 count) :
    Completes (limit + 1) m (count + 1) where
  le := Nat.succ_le_succ hc.le
  ready := ready_succ h hc.ready
  cut := fun hlt => ⟨Nat.succ_pos _, (hc.cut (Nat.lt_of_succ_lt_succ hlt)).2⟩
  running := fun _ => by
    rw [Machine.stepped_succ]
    cases count with
    | zero =>
      change m.step.1.status ≠ .halted
      rw [h]
      decide
    | succ count => exact hc.running (Nat.succ_pos _)

theorem Halts.succ (h : m.step.1.status = .ready) (hc : Halts limit m.step.1 count) :
    Halts (limit + 1) m (count + 1) where
  lt := Nat.succ_lt_succ hc.lt
  ready := ready_succ h hc.ready
  halted := hc.halted

namespace Run

/-- A run with more calls made of its machine, and what there is to count of them. -/
def after (r : Run) (made : List Call) : Run :=
  {r with
    machine := (r.machine.run made).1
    asked := made.reverse ++ r.asked
    frames := r.frames + made.count .tick
    instructions := r.instructions + r.machine.executed made}

theorem after_append (r : Run) (a b : List Call) : r.after (a ++ b) = (r.after a).after b := by
  simp only [after, Machine.run_append, List.reverse_append, List.append_assoc, List.count_append,
    Machine.executed_append, Nat.add_assoc]

theorem calls_after (r : Run) (made : List Call) : (r.after made).calls = r.calls ++ made := by
  rw [calls, after, List.reverse_append, List.reverse_reverse, calls]

theorem ask_eq_after (r : Run) {c : Call} (hnone : r.machine.executed [c] = 0) (hc : c ≠ .tick) :
    (r.ask c).1 = r.after [c] := by
  rw [after, hnone, List.count_singleton, if_neg (by simpa using hc)]
  rfl

theorem counted_eq_after (h : r.machine.Consistent d seed)
    (hruns : r.machine.step.1.status ≠ .halted) : r.counted = r.after [.step] := by
  rw [after, h.executed_step, counted]
  by_cases hwait : r.machine.status = .waiting
  · rw [if_pos hwait, if_pos (.inr hwait)]
    rfl
  · rw [if_neg hwait, if_neg (by simp [hruns, hwait])]
    rfl

/-- The steps that a run makes in a frame complete it, or halt the machine. -/
theorem steps_cases (h : r.machine.Consistent d seed) (limit : Nat) :
    ∃ count,
      (Completes limit r.machine count ∧ r.steps limit = r.after (.replicate count .step)) ∨
        (Halts limit r.machine count ∧ r.steps limit =
          {r.after (.replicate (count + 1) .step) with
            ending := .halted (r.machine.stepped (count + 1)).told}) := by
  induction limit generalizing r with
  | zero => exact ⟨0, .inl ⟨⟨Nat.le_refl 0, by omega, by omega, by omega⟩, rfl⟩⟩
  | succ limit ih =>
    have hnone : ∀ k, 0 < k → k < 1 → (r.machine.stepped k).status = .ready := by omega
    rw [steps_succ h]
    cases hs : r.machine.step.1.status with
    | halted =>
      have hnothing : r.machine.executed [.step] = 0 := by rw [h.executed_step, if_pos (.inl hs)]
      refine ⟨0, .inr ⟨⟨Nat.succ_pos limit, hnone, hs⟩, ?_⟩⟩
      rw [ask_eq_after r hnothing (by decide)]
      rfl
    | waiting =>
      have hruns : r.machine.step.1.status ≠ .halted := by
        rw [hs]
        decide
      refine ⟨1, .inl ⟨⟨Nat.le_add_left 1 limit, hnone, fun _ => ⟨Nat.one_pos, hs⟩, fun _ => hruns⟩,
        ?_⟩⟩
      exact counted_eq_after h hruns
    | ready =>
      have hruns : r.machine.step.1.status ≠ .halted := by
        rw [hs]
        decide
      have hfirst (count : Nat) : r.after (.replicate (count + 1) .step) =
          (r.after [.step]).after (.replicate count .step) :=
        r.after_append [.step] (.replicate count .step)
      obtain ⟨count, hcount⟩ := ih (r := r.after [.step]) h.step
      refine ⟨count + 1, ?_⟩
      rw [counted_eq_after h hruns, hfirst, hfirst]
      exact hcount.imp (fun hc => ⟨hc.1.succ hs, hc.2⟩) fun hc => ⟨hc.1.succ hs, hc.2⟩

end Run

/-! ### Frame by frame -/

/-- The keys of each of the first frames describe a keypad, if the host hands in keys. -/
def Keys.Valid (keys : Keys) (frames : Nat) : Prop :=
  ∀ f, keys = some f → ∀ number < frames, ∃ states k,
    f number = .ok states ∧ Keypad.ofStates states = .ok k

/-- The keys of a host that has a keypad for each frame. -/
def Keys.ofKeypads (keypads : Nat → Keypad) : Keys :=
  some fun number => .ok (Keypad.toStates (keypads number))

theorem Keys.valid_ofKeypads (keypads : Nat → Keypad) (frames : Nat) :
    (Keys.ofKeypads keypads).Valid frames := by
  intro f hf number hnumber
  rw [← Option.some.inj hf]
  exact ⟨_, _, rfl, Keypad.ofStates_toStates _⟩

/-- The call that sets the keys of a frame. -/
def Keys.calls (keys : Keys) (number : Nat) : List Call :=
  match keys with
  | none => []
  | some f =>
    match f number with
    | .ok states => [.setKeys states]
    | .error _ => []

/-- The calls of a frame with some steps, before its tick. -/
def Keys.frame (keys : Keys) (number count : Nat) : List Call :=
  keys.calls number ++ List.replicate count .step

/-- The calls that a run makes of a machine, from the frame of that number on, with some frames
left. The run finishes without more frames, completes one and goes on with the next, or ends with a
step. -/
inductive Course (limit : Nat) (keys : Keys) : Nat → Nat → Machine → List Call → Prop where
  | finish {number : Nat} {m : Machine} : Course limit keys number 0 m []
  | frame {number left count : Nat} {m : Machine} {rest : List Call}
      (hframe : Completes limit (m.run (keys.calls number)).1 count)
      (hrest : Course limit keys (number + 1) left (m.run (keys.frame number count)).1.tick rest) :
      Course limit keys number (left + 1) m (keys.frame number count ++ .tick :: rest)
  | halt {number left count : Nat} {m : Machine}
      (hframe : Halts limit (m.run (keys.calls number)).1 count) :
      Course limit keys number (left + 1) m (keys.frame number (count + 1))

theorem Keys.calls_cases (keys : Keys) (number : Nat) :
    keys.calls number = [] ∨ ∃ states, keys.calls number = [.setKeys states] := by
  cases keys with
  | none => exact .inl rfl
  | some f =>
    rw [Keys.calls]
    cases f number with
    | error e => exact .inl rfl
    | ok states => exact .inr ⟨states, rfl⟩

theorem Keys.frame_succ (keys : Keys) (number count : Nat) :
    keys.frame number (count + 1) = keys.frame number count ++ [.step] := by
  rw [frame, List.replicate_succ', ← List.append_assoc, frame]

theorem Keys.run_frame (keys : Keys) (number count : Nat) (m : Machine) :
    (m.run (keys.frame number count)).1 = (m.run (keys.calls number)).1.stepped count := by
  rw [Keys.frame, Machine.run_append]
  rfl

theorem Keys.executed_frame (keys : Keys) (number count : Nat) (m : Machine) :
    m.executed (keys.frame number count) =
      (m.run (keys.calls number)).1.executed (List.replicate count .step) := by
  have hnone : m.executed (keys.calls number) = 0 := by
    rcases keys.calls_cases number with h | ⟨states, h⟩ <;> rw [h] <;> simp [Machine.executed]
  rw [Keys.frame, Machine.executed_append, hnone, Nat.zero_add]

theorem Keys.count_tick_frame (keys : Keys) (number count : Nat) :
    (keys.frame number count).count .tick = 0 := by
  have hnone : (keys.calls number).count .tick = 0 := by
    rcases keys.calls_cases number with h | ⟨states, h⟩ <;> rw [h] <;> simp
  rw [Keys.frame, List.count_append, hnone, List.count_replicate, if_neg (by decide)]

theorem executed_frame_tick (m : Machine) (keys : Keys) (number count : Nat) (rest : List Call) :
    m.executed (keys.frame number count ++ .tick :: rest) =
      m.executed (keys.frame number count) +
        (m.run (keys.frame number count)).1.tick.executed rest := by
  have htick (n : Machine) : n.executed (.tick :: rest) = n.tick.executed rest := by
    simp [Machine.executed, Machine.call]
  rw [Machine.executed_append, htick]

theorem count_tick_frame_tick (keys : Keys) (number count : Nat) (rest : List Call) :
    (keys.frame number count ++ .tick :: rest).count .tick = rest.count .tick + 1 := by
  rw [List.count_append, keys.count_tick_frame, List.count_cons_self, Nat.zero_add]

namespace Run

theorem keyed_eq (h : keys.Valid left) (hr : r.frames < left) :
    r.keyed keys = r.after (keys.calls r.frames) := by
  cases keys with
  | none => rfl
  | some f =>
    obtain ⟨states, k, hf, hk⟩ := h f rfl _ hr
    have hset : r.machine.call (.setKeys states) = (r.machine.withKeypad k, .done) := by
      rw [Machine.call, Machine.setKeys, hk]
      rfl
    have hreply : (r.ask (.setKeys states)).2 = .done := by
      show (r.machine.call (.setKeys states)).2 = .done
      rw [hset]
    have hasked : (r.ask (.setKeys states)).1 = r.after [.setKeys states] :=
      ask_eq_after r (by simp [Machine.executed]) (by simp)
    have hask : r.ask (.setKeys states) = (r.after [.setKeys states], .done) :=
      Prod.ext hasked hreply
    simp only [keyed, Keys.calls, hf, hask]

theorem close_eq_after (hr : r.ending = .running) : r.close = r.after [.tick] := by
  simp only [close, hr]
  rfl

theorem frame_of_keyed (hr : (r.keyed keys).ending = .running) (limit : Nat) :
    r.frame limit keys = ((r.keyed keys).steps limit).close := by
  simp only [frame, hr]

/-- A run that goes on completes a frame, or halts in it. -/
theorem frame_cases (h : r.machine.Consistent d seed) (hr : r.ending = .running)
    (hkeys : keys.Valid left) (hleft : r.frames < left) (limit : Nat) :
    (∃ count, Completes limit (r.machine.run (keys.calls r.frames)).1 count ∧
      r.frame limit keys = r.after (keys.frame r.frames count ++ [.tick])) ∨
    ∃ count, Halts limit (r.machine.run (keys.calls r.frames)).1 count ∧
      r.frame limit keys = {r.after (keys.frame r.frames (count + 1)) with
        ending := .halted (r.machine.run (keys.frame r.frames (count + 1))).1.told} := by
  let s := r.after (keys.calls r.frames)
  have hkeyed : r.keyed keys = s := keyed_eq hkeys hleft
  have hframe : r.frame limit keys = (s.steps limit).close := by
    rw [frame_of_keyed (by rwa [hkeyed]), hkeyed]
  have hafter (count : Nat) :
      s.after (.replicate count .step) = r.after (keys.frame r.frames count) :=
    (r.after_append _ _).symm
  rw [hframe]
  obtain ⟨count, ⟨hsteps, heq⟩ | ⟨hsteps, heq⟩⟩ := steps_cases (r := s) (h.run _) limit
  · refine .inl ⟨count, hsteps, ?_⟩
    rw [heq, hafter, after_append]
    exact close_eq_after hr
  · refine .inr ⟨count, hsteps, ?_⟩
    rw [heq, hafter, keys.run_frame]
    rfl

end Run

/-- The calls that a run makes are a course, and what it counts are the ticks and the
instructions. -/
theorem course_advance (h : r.machine.Consistent d seed) (hr : r.ending = .running)
    (hkeys : keys.Valid (r.frames + left)) (limit : Nat) :
    ∃ made, Course limit keys r.frames left r.machine made ∧
      r.advance limit keys left = {r.after made with
        ending :=
          if made.count .tick = left then .running else .halted (r.machine.run made).1.told} := by
  induction left generalizing r with
  | zero => exact ⟨[], .finish, by rw [← hr]; rfl⟩
  | succ left ih =>
    have hgoes :
        r.advance limit keys (left + 1) = (r.frame limit keys).advance limit keys left := by
      rw [Run.advance, hr]
    rw [hgoes]
    rcases Run.frame_cases h hr hkeys (by omega) limit with
      ⟨count, hframe, hnext⟩ | ⟨count, hframe, hnext⟩
    · let s := r.after (keys.frame r.frames count ++ [.tick])
      have hmachine : s.machine = (r.machine.run (keys.frame r.frames count)).1.tick := by
        show (r.machine.run _).1 = _
        rw [Machine.run_append]
        rfl
      have hframes : s.frames = r.frames + 1 := by
        show r.frames + _ = _
        rw [count_tick_frame_tick]
        rfl
      have hs : s.machine.Consistent d seed := h.run _
      obtain ⟨made, hcourse, hrun⟩ := ih hs hr (by rwa [hframes, Nat.succ_add_eq_add_succ])
      have hafter : s.after made = r.after (keys.frame r.frames count ++ .tick :: made) := by
        rw [List.append_cons, Run.after_append]
      have hlast : (r.machine.run (keys.frame r.frames count ++ .tick :: made)).1 =
          (s.machine.run made).1 := by
        rw [List.append_cons, Machine.run_append]
        rfl
      rw [hframes, hmachine] at hcourse
      refine ⟨_, .frame hframe hcourse, ?_⟩
      rw [hnext, hrun, hafter, hlast, count_tick_frame_tick]
      simp only [Nat.add_right_cancel_iff]
    · refine ⟨_, .halt hframe, ?_⟩
      rw [hnext, keys.count_tick_frame, if_neg (by omega)]
      exact Run.advance_of_ended (by simp) left

/-- A host that asks for a run of frames is told what the course of the run counts, and how the
machine stands after it. -/
theorem exists_course (h : m.Consistent d seed) (frames limit : Int)
    (hkeys : keys.Valid frames.toNat) :
    ∃ made, Course limit.toNat keys 0 frames.toNat m made ∧
      (run m frames limit keys).calls = made ∧
      (run m frames limit keys).machine = (m.run made).1 ∧
      (run m frames limit keys).summary = .ok
        { frames := made.count .tick
          instructions := m.executed made
          status := (m.run made).1.status
          error := if made.count .tick = frames.toNat then none else (m.run made).1.error } := by
  rw [← Nat.zero_add frames.toNat] at hkeys
  obtain ⟨made, hcourse, hrun⟩ := course_advance (r := .start m) h rfl hkeys limit.toNat
  refine ⟨made, hcourse, ?_⟩
  rw [run, hrun]
  refine ⟨(Run.start m).calls_after made, rfl, ?_⟩
  rw [Run.summary]
  by_cases hall : made.count .tick = frames.toNat
  · rw [if_pos hall, if_pos hall]
    simp [Run.after, Run.start]
  · rw [if_neg hall, if_neg hall]
    simp [Run.after, Run.start, Machine.told]

/-! ### One course for one machine -/

theorem Completes.status_ne_halted (h : Completes limit m count) :
    ∀ k, 0 < k → k ≤ count → (m.stepped k).status ≠ .halted := by
  intro k hpos hk
  rcases Nat.lt_or_eq_of_le hk with hlt | rfl
  · rw [h.ready k hpos hlt]
    decide
  · exact h.running hpos

theorem Completes.le_of_completes {other : Nat} (h : Completes limit m count)
    (h' : Completes limit m other) : count ≤ other := by
  apply Nat.le_of_not_lt
  intro hlt
  obtain ⟨hpos, hwaits⟩ := h'.cut (Nat.lt_of_lt_of_le hlt h.le)
  rw [h.ready other hpos hlt] at hwaits
  cases hwaits

theorem Halts.status_eq (h : Halts limit m count) : (m.stepped (count + 1)).status = .halted := by
  rw [Machine.stepped_add]
  exact h.halted

theorem Halts.le_of_halts {other : Nat} (h : Halts limit m count) (h' : Halts limit m other) :
    count ≤ other := by
  apply Nat.le_of_not_lt
  intro hlt
  have hhalted := h'.status_eq
  rw [h.ready (other + 1) (Nat.succ_pos other) (Nat.succ_lt_succ hlt)] at hhalted
  cases hhalted

/-- A frame is not both completed and left by a step that halts. -/
theorem Completes.not_halts {other : Nat} (h : Completes limit m count) : ¬ Halts limit m other := by
  intro hhalts
  rcases Nat.lt_or_ge other count with hlt | hge
  · exact h.status_ne_halted (other + 1) (Nat.succ_pos other) hlt hhalts.status_eq
  · obtain ⟨hpos, hwaits⟩ := h.cut (Nat.lt_of_le_of_lt hge hhalts.lt)
    rw [hhalts.ready count hpos (Nat.lt_succ_of_le hge)] at hwaits
    cases hwaits

/-- A machine has one course. -/
theorem Course.unique {other : List Call} (hc : Course limit keys number left m made)
    (hother : Course limit keys number left m other) : made = other := by
  induction hc generalizing other with
  | finish =>
    cases hother
    rfl
  | frame hframe hrest ih =>
    cases hother with
    | frame hframe' hrest' =>
      obtain rfl := Nat.le_antisymm (hframe.le_of_completes hframe') (hframe'.le_of_completes hframe)
      rw [ih hrest']
    | halt hframe' => exact absurd hframe' hframe.not_halts
  | halt hframe =>
    cases hother with
    | frame hframe' hrest' => exact absurd hframe hframe'.not_halts
    | halt hframe' =>
      rw [Nat.le_antisymm (hframe.le_of_halts hframe') (hframe'.le_of_halts hframe)]

/-! ### What a course counts -/

theorem Keys.runsThrough_calls (keys : Keys) (number : Nat) (m : Machine) :
    m.RunsThrough (keys.calls number) := by
  rcases keys.calls_cases number with h | ⟨states, h⟩
  · rw [h]
    exact fun report hmem => by cases hmem
  · intro report hmem
    rw [h] at hmem
    simp only [Machine.run, Machine.call, Machine.settle, List.mem_singleton] at hmem
    split at hmem <;> cases hmem

theorem Keys.runsThrough_frame (h : m.Consistent d seed)
    (hc : ∀ k, 0 < k → k ≤ count → ((m.run (keys.calls number)).1.stepped k).status ≠ .halted) :
    m.RunsThrough (keys.frame number count) :=
  Machine.runsThrough_append.2
    ⟨keys.runsThrough_calls number m, (h.run (keys.calls number)).runsThrough_replicate hc⟩

/-- A course ticks for every frame, and no step halts, or it ends at the first step that does. -/
theorem Course.ends (h : m.Consistent d seed) (hc : Course limit keys number left m made) :
    (made.count .tick = left ∧ m.RunsThrough made) ∨
      (made.count .tick < left ∧ ∃ before, made = before ++ [.step] ∧ m.RunsThrough before ∧
        (m.run before).1.step.2.status = .halted) := by
  induction hc with
  | finish => exact .inl ⟨rfl, fun report hmem => by cases hmem⟩
  | @frame number left count m rest hframe hrest ih =>
    have hthrough : m.RunsThrough (keys.frame number count ++ [.tick]) :=
      Machine.runsThrough_append.2 ⟨Keys.runsThrough_frame h hframe.status_ne_halted,
        fun report hmem => by cases List.mem_singleton.1 hmem⟩
    have htick : (m.run (keys.frame number count ++ [.tick])).1 =
        (m.run (keys.frame number count)).1.tick := by
      rw [Machine.run_append]
      rfl
    rw [count_tick_frame_tick, List.append_cons]
    rcases ih ((h.run _).call .tick) with ⟨hcount, hruns⟩ | ⟨hcount, before, rfl, hruns, hhalted⟩
    · refine .inl ⟨by omega, Machine.runsThrough_append.2 ⟨hthrough, ?_⟩⟩
      rw [htick]
      exact hruns
    · refine .inr ⟨by omega, keys.frame number count ++ [.tick] ++ before, ?_, ?_, ?_⟩
      · rw [List.append_assoc _ before]
      · rw [Machine.runsThrough_append, htick]
        exact ⟨hthrough, hruns⟩
      · rw [Machine.run_append, htick]
        exact hhalted
  | @halt number left count m hframe =>
    have hready : m.RunsThrough (keys.frame number count) := by
      refine Keys.runsThrough_frame h fun k hpos hk => ?_
      rw [hframe.ready k hpos (Nat.lt_succ_of_le hk)]
      decide
    rw [keys.count_tick_frame]
    refine .inr ⟨Nat.succ_pos left, _, keys.frame_succ number count, hready, ?_⟩
    rw [(h.run _).report_step, keys.run_frame]
    exact hframe.halted

/-- Every step may be an instruction, but the one that halts is none. -/
theorem Course.executed_le (h : m.Consistent d seed) (hc : Course limit keys number left m made) :
    m.executed made ≤ made.count .tick * limit + if made.count .tick = left then 0 else limit - 1 := by
  induction hc with
  | finish => exact Nat.zero_le _
  | @frame number left count m rest hframe hrest ih =>
    have hfirst := (m.run (keys.calls number)).1.executed_replicate_le count
    have hlimit := hframe.le
    have hnext := ih ((h.run _).call .tick)
    rw [executed_frame_tick, keys.executed_frame, count_tick_frame_tick, Nat.succ_mul]
    simp only [Nat.add_right_cancel_iff]
    omega
  | @halt number left count m hframe =>
    have hfirst := (m.run (keys.calls number)).1.executed_replicate_le count
    have hlimit := hframe.lt
    have hlast : ((m.run (keys.calls number)).1.stepped count).executed [.step] = 0 := by
      rw [((h.run _).stepped count).executed_step, if_pos (.inl hframe.halted)]
    rw [keys.executed_frame, Machine.executed_replicate_add, List.replicate_one, hlast,
      keys.count_tick_frame, if_neg (by omega), Nat.zero_mul]
    omega

end Frames

open Frames

/-- **The summary of a run counts what was done.** The calls that a run makes are its one course,
with the frames of the summary ticked in it and the instructions executed. A step that halts is the
last of them. -/
theorem run_accounts (d : Dialect) (seed : BitVec 64) (image : List Byte)
    (h : image.length ≤ maxProgramSize) :
    ∃ m, Machine.create d seed image = .ok m ∧
      ∀ (calls : List Call) (frames limit : Int) (shown : Bool) (keys : Keys),
        keys.Valid frames.toNat →
        let p := (m.run calls).1
        let r := runValues p (.integer frames) (.integer limit) shown keys
        (∀ made, Course limit.toNat keys 0 frames.toNat p made ↔ made = r.calls) ∧
          r.machine = (p.run r.calls).1 ∧
          ∃ summary, r.summary = .ok summary ∧
            summary.frames = r.calls.count .tick ∧ summary.instructions = p.executed r.calls ∧
            ((p.RunsThrough r.calls ∧ (summary.frames : Int) = max 0 frames ∧
                (1 ≤ limit → (summary.instructions : Int) ≤ summary.frames * limit)) ∨
              ∃ before, r.calls = before ++ [.step] ∧ p.RunsThrough before ∧
                (p.run before).1.step.2.status = .halted ∧ (summary.frames : Int) < frames ∧
                (1 ≤ limit →
                  (summary.instructions : Int) ≤ summary.frames * limit + (limit - 1))) := by
  obtain ⟨m, hm⟩ := Machine.create_of_le d seed h
  refine ⟨m, hm, fun calls frames limit shown keys hkeys => ?_⟩
  intro p r
  have hp : p.Consistent d seed := (Machine.consistent_create hm).run calls
  obtain ⟨made, hcourse, hcalls, hmachine, hsummary⟩ := exists_course hp frames limit hkeys
  change r.calls = made at hcalls
  subst hcalls
  have hbound := hcourse.executed_le hp
  have hlimit : 1 ≤ limit → (limit.toNat : Int) = limit := fun hpos => Int.toNat_of_nonneg (by omega)
  have hone : ∀ made, Course limit.toNat keys 0 frames.toNat p made ↔ made = r.calls :=
    fun made => ⟨fun hother => hother.unique hcourse, fun hsame => hsame ▸ hcourse⟩
  refine ⟨hone, hmachine, _, hsummary, rfl, rfl, ?_⟩
  dsimp only
  rcases hcourse.ends hp with ⟨hticks, hruns⟩ | ⟨hticks, before, hmade, hruns, hhalted⟩
  · rw [if_pos hticks] at hbound
    refine .inl ⟨hruns, by omega, fun hpos => ?_⟩
    rw [← hlimit hpos]
    exact Int.ofNat_le.2 hbound
  · rw [if_neg (by omega)] at hbound
    refine .inr ⟨before, hmade, hruns, hhalted, by omega, fun hpos => ?_⟩
    have hcast := Int.ofNat_le.2 hbound
    rw [Int.natCast_add, Int.natCast_mul] at hcast
    rw [← hlimit hpos]
    omega

/-- A program waits for a key, which goes down in the fourth frame, and then comes to a word that is
no instruction. Three frames are completed, and three instructions executed. -/
theorem run_accounts_awaited :
    let image : List Byte := [0x60, 0x05, 0xF0, 0x18, 0xF1, 0x0A, 0xFF, 0xFF]
    let keypad (number : Nat) : Keypad := Keypad.released.set 7 (number == 3)
    let set (number : Nat) : Call := .setKeys (keypad number).toStates
    let keys : Keys := .ofKeypads keypad
    image.length ≤ maxProgramSize ∧ keys.Valid 5 ∧
      ∃ m, Machine.create .modern 0 image = .ok m ∧
        let r := runValues m (.integer 5) (.integer 10) false keys
        r.calls = [set 0, .step, .step, .step, .tick, set 1, .step, .tick, set 2, .step, .tick,
          set 3, .step, .step] ∧
        Course 10 keys 0 5 m r.calls ∧
        (∃ s, r.summary = .ok s ∧ s.frames = 3 ∧ s.instructions = 3 ∧ m.executed r.calls = 3) ∧
        ∃ before, r.calls = before ++ [.step] ∧ m.RunsThrough before ∧
          (m.run before).1.step.2.status = .halted := by
  intro image keypad set keys
  have h : image.length ≤ maxProgramSize := by decide
  have hkeys : keys.Valid 5 := Keys.valid_ofKeypads _ 5
  have heval : ((Machine.create .modern 0 image).toOption.any fun m =>
      let r := runValues m (.integer 5) (.integer 10) false keys
      decide (r.calls = [set 0, .step, .step, .step, .tick, set 1, .step, .tick, set 2, .step,
          .tick, set 3, .step, .step] ∧
        r.summary.toOption =
          some ⟨3, 3, .halted, some (.invalidOpcode (some 0x206) 0xFFFF)⟩)) = true := by
    decide +kernel
  obtain ⟨m, hm, haccounts⟩ := run_accounts .modern 0 image h
  rw [hm] at heval
  obtain ⟨hcalls, hthree⟩ := of_decide_eq_true heval
  obtain ⟨hcourse, -, summary, hsummary, -, hinstructions, hends⟩ :=
    haccounts [] 5 10 false keys hkeys
  rw [Machine.run] at hcourse hsummary hinstructions hends
  rw [hsummary] at hthree
  obtain rfl := Option.some.inj hthree
  refine ⟨h, hkeys, m, hm, hcalls, (hcourse _).2 rfl,
    ⟨_, hsummary, rfl, rfl, hinstructions.symm⟩, ?_⟩
  rcases hends with ⟨-, hframes, -⟩ | ⟨before, hmade, hruns, hhalted, -⟩
  · cases hframes
  · exact ⟨before, hmade, hruns, hhalted⟩

end Chip8
