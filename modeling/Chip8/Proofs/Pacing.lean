import Chip8.Proofs.Commute
import Chip8.Proofs.Executed
import Chip8.Proofs.Summary

/-!
Steps and the frames they are made in.

The ticks of a run are all that its frames have to do with its program. `untimed` is a state, or a
machine, without what a tick changes. A step takes machines that are the same without their timers
to machines that are (`untimed_step`), unless it executes `FX07`, which reads a timer; and a frame
is cut short only by `FX0A`. So a run of a program that executes neither (`Machine.FreeRunning`)
makes as many steps as its frames have room for (`Course.untimed_eq`), and where it ticks is not
seen. The main result `pacing_independent` is that two runs with as many steps in all end alike, and
like these steps alone.
-/
namespace Chip8

namespace HostChange

/-- Both timers to zero. -/
def clearTimers : HostChange := ⟨fun _ => 0, fun _ => 0, id⟩

end HostChange

namespace State
variable {d : Dialect} {s t : State}

/-- The state with its timers at zero. -/
def untimed (s : State) : State := s.changed .clearTimers

theorem untimed_untimed (s : State) : s.untimed.untimed = s.untimed := rfl

theorem status_untimed (s : State) : s.untimed.status = s.status := rfl

theorem diagnosis_untimed (s : State) : s.untimed.diagnosis = s.diagnosis := rfl

/-- A step comes to the same without the timers before it, unless it reads one. -/
theorem untimed_step (d : Dialect) (h : ∀ x, ¬ s.Executes (.readDelay x)) :
    (s.step d).untimed = (s.untimed.step d).untimed := by
  by_cases hset : ∃ x, s.Executes (.setDelay x) ∨ s.Executes (.setSound x)
  · -- a timer that is set is the same with both as before, and then not seen
    obtain ⟨x, hx | hx⟩ := hset
    all_goals
      have hx' : s.untimed.Executes _ := ⟨hx.running, hx.awake, hx.decoded⟩
      rw [hx.step_eq (d := d) rfl, hx'.step_eq (d := d) rfl]
      rfl
  · have hstep : (s.step d).untimed = s.untimed.step d := by
      apply step_changed
      cases hr : s.fault.raised with
      | true => exact .inl rfl
      | false =>
        right
        cases hk : s.waiting with
        | true => exact .inl ⟨rfl, rfl⟩
        | false =>
          refine .inr ⟨rfl, fun i hi => ?_⟩
          have hexec : s.Executes i := ⟨hr, hk, hi⟩
          refine leaves_of_keys rfl ?_ ?_ ?_ <;> rintro x rfl
          · exact h x hexec
          · exact hset ⟨x, .inl hexec⟩
          · exact hset ⟨x, .inr hexec⟩
    rw [← hstep, untimed_untimed]

theorem executes_untimed_iff {i : Instruction} : s.untimed.Executes i ↔ s.Executes i :=
  ⟨fun h => ⟨h.running, h.awake, h.decoded⟩, fun h => ⟨h.running, h.awake, h.decoded⟩⟩

/-- Steps of states that are the same without their timers, if they read none. -/
theorem untimed_step_congr (d : Dialect) (h : s.untimed = t.untimed)
    (hread : ∀ x, ¬ s.Executes (.readDelay x)) : (s.step d).untimed = (t.step d).untimed := by
  have hread' : ∀ x, ¬ t.Executes (.readDelay x) := by
    intro x hx
    rw [← executes_untimed_iff, ← h, executes_untimed_iff] at hx
    exact hread x hx
  rw [untimed_step d hread, h, ← untimed_step d hread']

/-- A state that does not wait does so after a step only if this executes the instruction that
waits. -/
theorem waiting_step (hk : s.waiting = false) (h : ∀ x, ¬ s.Executes (.waitKey x)) :
    (s.step d).waiting = false := by
  rcases step_cases d s with ⟨-, hs⟩ | ⟨-, hwaits, -⟩ | ⟨-, -, f, -, hs⟩ | ⟨hr, -, ho⟩
  · rw [hs]
    exact hk
  · rw [hk] at hwaits
    cases hwaits
  · rw [hs]
    exact hk
  · obtain ⟨i, hd, hi⟩ := outcome_eq_ok_iff.1 ho
    rcases wait_of_perform hi with ⟨hsame, -⟩ | ⟨x, rfl, -⟩
    · rw [hsame]
      exact hk
    · exact absurd ⟨hr, hk, hd⟩ (h x)

end State

namespace Machine
variable {d : Dialect} {seed : BitVec 64} {m n : Machine} {count : Nat}

/-- The machine with its timers at zero. -/
def untimed (m : Machine) : Machine := {m with state := m.state.untimed}

/-- A number of steps execute neither `FX07` nor `FX0A`. -/
def FreeRunning (m : Machine) (count : Nat) : Prop :=
  ∀ k < count, ∀ x,
    ¬ (m.stepped k).state.Executes (.readDelay x) ∧ ¬ (m.stepped k).state.Executes (.waitKey x)

theorem FreeRunning.mono {a b : Nat} (h : m.FreeRunning b) (hle : a ≤ b) : m.FreeRunning a :=
  fun k hk => h k (Nat.lt_of_lt_of_le hk hle)

theorem FreeRunning.add_right {a b : Nat} (h : m.FreeRunning (a + b)) :
    (m.stepped a).FreeRunning b := by
  intro k hk
  rw [← stepped_add]
  exact h (a + k) (Nat.add_lt_add_left hk a)

/-! ### Steps without the timers -/

theorem untimed_tick (m : Machine) : m.tick.untimed = m.untimed := rfl

theorem eq_of_untimed (h : m.untimed = n.untimed) :
    m.image = n.image ∧ m.state.untimed = n.state.untimed ∧ m.status = n.status ∧
      m.error = n.error := by
  simp only [untimed, mk.injEq] at h
  exact h.2.2

/-- Machines tell the same if they have the same program and, without the timers, the same state. -/
theorem Consistent.untimed_eq (hm : m.Consistent d seed) (hn : n.Consistent d seed)
    (himage : m.image = n.image) (hstate : m.state.untimed = n.state.untimed) :
    m.untimed = n.untimed := by
  have hstatus : m.status = n.status := by
    rw [hm.status_eq, hn.status_eq, ← State.status_untimed, hstate, State.status_untimed]
  have herror : m.error = n.error := by
    apply Except.ok.inj (ε := Int)
    rw [← hm.error_eq, ← hn.error_eq, ← State.diagnosis_untimed, hstate, State.diagnosis_untimed]
  rw [untimed, untimed, hm.dialect_eq, hn.dialect_eq, hm.seed_eq, hn.seed_eq, himage, hstate, hstatus,
    herror]

/-- Machines that are the same without their timers are so after a step that reads none. -/
theorem Consistent.untimed_step (hm : m.Consistent d seed) (hn : n.Consistent d seed)
    (h : m.untimed = n.untimed) (hread : ∀ x, ¬ m.state.Executes (.readDelay x)) :
    m.step.1.untimed = n.step.1.untimed := by
  obtain ⟨himage, hsame, -⟩ := eq_of_untimed h
  have hstate : (m.state.step d).untimed = (n.state.step d).untimed :=
    State.untimed_step_congr d hsame hread
  apply hm.step.untimed_eq hn.step
  · rw [image_step, image_step, himage]
  · rw [hm.state_step, hn.state_step, hstate]

/-- They are so after a number of steps, and have executed as many instructions. -/
theorem Consistent.untimed_stepped (hm : m.Consistent d seed) (hn : n.Consistent d seed)
    (h : m.untimed = n.untimed) (hfree : m.FreeRunning count) :
    (m.stepped count).untimed = (n.stepped count).untimed ∧
      m.executed (.replicate count .step) = n.executed (.replicate count .step) := by
  induction count generalizing m n with
  | zero => exact ⟨h, rfl⟩
  | succ count ih =>
    rw [Nat.add_comm] at hfree
    have hstep : m.step.1.untimed = n.step.1.untimed :=
      hm.untimed_step hn h fun x => (hfree 0 (by omega) x).1
    obtain ⟨hstepped, hexecuted⟩ := ih hm.step hn.step hstep hfree.add_right
    obtain ⟨-, -, hbefore, -⟩ := eq_of_untimed h
    obtain ⟨-, -, hafter, -⟩ := eq_of_untimed hstep
    have hone : m.executed [.step] = n.executed [.step] := by
      rw [hm.executed_step, hn.executed_step, hbefore, hafter]
    rw [stepped_succ, stepped_succ, executed_replicate_succ, executed_replicate_succ, hone, hexecuted]
    exact ⟨hstepped, rfl⟩

/-- A machine that does not wait does not do so while it runs free. -/
theorem Consistent.status_ne_waiting (h : m.Consistent d seed) (hfree : m.FreeRunning count)
    (hwait : m.status ≠ .waiting) : (m.stepped count).status ≠ .waiting := by
  induction count generalizing m with
  | zero => exact hwait
  | succ count ih =>
    rw [Nat.add_comm] at hfree
    have hawake : m.state.waiting = false := by
      rw [← Bool.not_eq_true]
      intro hk
      rw [ne_eq, h.status_eq, State.status_eq_waiting_iff] at hwait
      exact hwait ⟨(h.reached.wellFormed.waiting hk).1, hk⟩
    rw [stepped_succ]
    refine ih h.step hfree.add_right ?_
    rw [ne_eq, h.step.status_eq, State.status_eq_waiting_iff, h.state_step,
      State.waiting_step hawake fun x => (hfree 0 (by omega) x).2]
    exact fun hk => Bool.false_ne_true hk.2

end Machine

/-! ### Frames -/

namespace Frames
variable {d : Dialect} {seed : BitVec 64} {m p : Machine} {limit count number left : Nat}
  {made : List Call}

/-- A frame that does not leave the machine waiting has all the steps that it can have. -/
theorem Completes.count_eq (h : Completes limit m count)
    (hwait : (m.stepped count).status ≠ .waiting) : count = limit := by
  rcases Nat.lt_or_eq_of_le h.le with hlt | heq
  · exact absurd (h.cut hlt).2 hwait
  · exact heq

/-- A course without keys comes to what the steps come to that its frames have room for, if these
run free. -/
theorem Course.untimed_eq (hc : Course limit none number left m made) (hm : m.Consistent d seed)
    (hp : p.Consistent d seed) (h : p.untimed = m.untimed) (hwait : p.status ≠ .waiting)
    (hfree : p.FreeRunning (left * limit)) :
    (p.stepped (left * limit)).untimed = (m.run made).1.untimed ∧
      p.executed (.replicate (left * limit) .step) = m.executed made := by
  induction hc generalizing p with
  | finish =>
    rw [Nat.zero_mul]
    exact ⟨h, rfl⟩
  | @frame number left count m rest hframe hrest ih =>
    change Completes limit m count at hframe
    rw [Nat.succ_mul, Nat.add_comm] at hfree ⊢
    have hfirst : p.FreeRunning limit := hfree.mono (Nat.le_add_right _ _)
    -- no step waits, so that the frame is not cut
    have hcount : count = limit := by
      have hcut : p.FreeRunning count := hfirst.mono hframe.le
      obtain ⟨hsteps, -⟩ := hp.untimed_stepped hm h hcut
      obtain ⟨-, -, hstatus, -⟩ := Machine.eq_of_untimed hsteps
      apply hframe.count_eq
      rw [← hstatus]
      exact hp.status_ne_waiting hcut hwait
    subst hcount
    obtain ⟨hsteps, hexecuted⟩ := hp.untimed_stepped hm h hfirst
    have hnext : (p.stepped count).untimed =
        (m.run (Keys.frame none number count)).1.tick.untimed := by
      rw [Machine.untimed_tick, Keys.run_frame]
      exact hsteps
    obtain ⟨hlater, hothers⟩ := ih ((hm.run _).call .tick) (hp.stepped count) hnext
      (hp.status_ne_waiting hfirst hwait) hfree.add_right
    rw [Machine.stepped_add, Machine.executed_replicate_add, hlater, hexecuted, hothers,
      Machine.run_append, executed_frame_tick, Keys.executed_frame]
    exact ⟨rfl, rfl⟩
  | @halt number left count m hframe =>
    change Halts limit m count at hframe
    -- the steps that are left find the machine halted
    obtain ⟨others, hothers⟩ : ∃ others, (left + 1) * limit = (count + 1) + others := by
      refine Nat.exists_eq_add_of_le ?_
      calc count + 1 ≤ limit := hframe.lt
        _ ≤ (left + 1) * limit := Nat.le_mul_of_pos_left limit (Nat.succ_pos left)
    rw [hothers] at hfree ⊢
    obtain ⟨hsteps, hexecuted⟩ :=
      hp.untimed_stepped hm h (hfree.mono (Nat.le_add_right (count + 1) others))
    obtain ⟨-, -, hstatus, -⟩ := Machine.eq_of_untimed hsteps
    obtain ⟨hstays, hnone⟩ :=
      (hp.stepped (count + 1)).stepped_of_halted (hstatus.trans hframe.status_eq) others
    rw [Machine.stepped_add, hstays, hsteps, Machine.executed_replicate_add, hexecuted, hnone,
      Keys.executed_frame]
    exact ⟨rfl, rfl⟩

/-- A run without keys of a machine that runs free tells what there is to tell after as many
steps. -/
theorem exists_summary_of_freeRunning (hp : p.Consistent d seed) (hwait : p.status ≠ .waiting)
    (frames : Nat) (hlimit : 0 < limit) (hfree : p.FreeRunning (frames * limit)) :
    let plain := p.stepped (frames * limit)
    (run p frames limit none).machine.untimed = plain.untimed ∧
      ∃ s, (run p frames limit none).summary = .ok s ∧
        s.instructions = p.executed (.replicate (frames * limit) .step) ∧
        s.status = plain.status ∧
        s.error = if p.status = .halted ∧ frames * limit = 0 then none else plain.error := by
  intro plain
  obtain ⟨made, hcourse, -, hmachine, hsummary⟩ := exists_course hp frames limit (Keys.valid_none _)
  simp only [Int.toNat_natCast] at hcourse hsummary
  obtain ⟨hsame, hexecuted⟩ := hcourse.untimed_eq hp hp rfl hwait hfree
  obtain ⟨-, -, hstatus, herror⟩ := Machine.eq_of_untimed hsame
  refine ⟨by rw [hmachine]; exact hsame.symm, _, hsummary, hexecuted.symm, hstatus.symm, ?_⟩
  dsimp only
  rw [herror]
  by_cases hidle : p.status = .halted ∧ frames * limit = 0
  · have hnone : frames = 0 := (Nat.mul_eq_zero.1 hidle.2).resolve_right (Nat.ne_of_gt hlimit)
    obtain ⟨hticks, -⟩ := hcourse.status_eq (.inr hnone)
    rw [if_pos hticks, if_pos hidle]
  · have hsteps : p.status ≠ .halted ∨ 0 < limit ∧ 0 < frames := by
      refine Decidable.or_iff_not_imp_left.2 fun hhalted => ⟨hlimit, Nat.pos_of_ne_zero ?_⟩
      rintro rfl
      exact hidle ⟨Decidable.not_not.1 hhalted, Nat.zero_mul limit⟩
    rw [if_neg hidle, hcourse.error_eq hp hsteps]

end Frames

open Frames

/-- **Where a run ticks is not seen by a program that runs free.** Frames with as many steps, none
of them `FX07` or `FX0A`, leave the same machine but for its timers. -/
theorem pacing_independent (d : Dialect) (seed : BitVec 64) (image : List Byte)
    (h : image.length ≤ maxProgramSize) :
    ∃ m, Machine.create d seed image = .ok m ∧
      ∀ (calls : List Call) (frames limit frames' limit' : Nat), 1 ≤ limit → 1 ≤ limit' →
        frames * limit = frames' * limit' →
        let p := (m.run calls).1
        let plain := p.stepped (frames * limit)
        let r := run p frames limit none
        let r' := run p frames' limit' none
        p.status ≠ .waiting → p.FreeRunning (frames * limit) →
        r.machine.untimed = r'.machine.untimed ∧ r.machine.untimed = plain.untimed ∧
          ∃ s s', r.summary = .ok s ∧ r'.summary = .ok s' ∧
            s.instructions = s'.instructions ∧ s.status = s'.status ∧ s.error = s'.error ∧
            s.instructions = p.executed (.replicate (frames * limit) .step) ∧
            s.status = plain.status ∧
            (p.status ≠ .halted ∨ frames * limit ≠ 0 → s.error = plain.error) := by
  obtain ⟨m, hm⟩ := Machine.create_of_le d seed h
  refine ⟨m, hm, fun calls frames limit frames' limit' hlimit hlimit' heq => ?_⟩
  intro p plain r r' hwait hfree
  have hp : p.Consistent d seed := (Machine.consistent_create hm).run calls
  obtain ⟨hsame, s, hs, hexecuted, hstatus, herror⟩ :=
    exists_summary_of_freeRunning hp hwait frames hlimit hfree
  rw [heq] at hfree
  obtain ⟨hsame', s', hs', hexecuted', hstatus', herror'⟩ :=
    exists_summary_of_freeRunning hp hwait frames' hlimit' hfree
  rw [← heq] at hsame' hexecuted' hstatus' herror'
  refine ⟨hsame.trans hsame'.symm, hsame, s, s', hs, hs', hexecuted.trans hexecuted'.symm,
    hstatus.trans hstatus'.symm, herror.trans herror'.symm, hexecuted, hstatus, fun hsteps => ?_⟩
  rw [herror, if_neg fun hidle => hsteps.elim (absurd hidle.1) (absurd hidle.2)]

/-- A program sets a timer and comes to a word that is no instruction. It is run in two frames of
three steps and in three of two, which tick once before it halts. -/
theorem pacing_independent_halted :
    let image : List Byte := [0x60, 0x05, 0xF0, 0x15, 0xFF, 0xFF]
    image.length ≤ maxProgramSize ∧ 2 * 3 = 3 * 2 ∧
      ∃ m, Machine.create .modern 0 image = .ok m ∧ m.status ≠ .waiting ∧ m.FreeRunning (2 * 3) ∧
        let r := run m 2 3 none
        let r' := run m 3 2 none
        r.machine.untimed = r'.machine.untimed ∧ r.machine.state.delayTimer = 5 ∧
          r'.machine.state.delayTimer = 4 ∧
          ∃ s s', r.summary = .ok s ∧ r'.summary = .ok s' ∧ s.instructions = s'.instructions ∧
            s.error = s'.error ∧ s.error = some (.invalidOpcode (some 0x204) 0xFFFF) := by
  intro image
  have h : image.length ≤ maxProgramSize := by decide
  have heval : ((Machine.create .modern 0 image).toOption.any fun m =>
      decide ((m.status ≠ .waiting ∧ ∀ k < 2 * 3, (m.stepped k).state.fault.raised = true ∨
          Instruction.decode ((m.stepped k).state.wordAt (m.stepped k).state.pc) ∈
            [some (.load 0 5), some (.setDelay 0), none]) ∧
        (run m 2 3 none).machine.state.delayTimer = 5 ∧
        (run m 3 2 none).machine.state.delayTimer = 4 ∧
        (m.stepped (2 * 3)).error = some (.invalidOpcode (some 0x204) 0xFFFF))) = true := by
    decide +kernel
  obtain ⟨m, hm, hpacing⟩ := pacing_independent .modern 0 image h
  rw [hm] at heval
  obtain ⟨⟨hwait, hsteps⟩, hdelay, hdelay', hlast⟩ := of_decide_eq_true heval
  have hfree : m.FreeRunning (2 * 3) := by
    intro k hk x
    refine ⟨fun hx => ?_, fun hx => ?_⟩
    all_goals
      have hword := hsteps k hk
      rw [hx.running, hx.decoded] at hword
      simp at hword
  obtain ⟨hsame, -, s, s', hs, hs', hinstructions, -, herror, -, -, hplain⟩ :=
    hpacing [] 2 3 3 2 (by decide) (by decide) rfl hwait hfree
  exact ⟨h, rfl, m, hm, hwait, hfree, hsame, hdelay, hdelay', s, s', hs, hs', hinstructions, herror,
    (hplain (.inr (by decide))).trans hlast⟩

end Chip8
