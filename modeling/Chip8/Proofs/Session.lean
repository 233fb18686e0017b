import Chip8.Proofs.Reach

/-!
What a host does to a program.

A machine remembers what it last told its host, and leaves a state alone that has stopped. A
`Session` remembers nothing: it is a program and its state, and each call either starts a program or
is a function of the state (`State.after`), where a stopped state is stepped like any other. The
main result `run_refines` is that a machine is its session, call by call, and that what it remembers
and what it replies to a step is what there is to tell about the state (`State.report`).
-/
namespace Chip8

/-- A call goes on with the program that is loaded, instead of starting one. -/
def Call.goesOn : Call → Bool
  | .load _ | .reset => false
  | .step | .tick | .setKeys _ | .pressKey _ _ | .takeDrawn => true

namespace State

/-- The state after a call that goes on with the program. Keys that are refused leave the keypad. -/
def after (d : Dialect) (s : State) : Call → State
  | .step => s.step d
  | .tick => s.tick
  | .setKeys keys => s.withKeypad ((Keypad.ofStates keys).toOption.getD s.keypad)
  | .pressKey key down => s.withKeypad ((s.keypad.press key down).toOption.getD s.keypad)
  | .takeDrawn => {s with drawn := false}
  | .load _ | .reset => s

/-- What there is to tell about a state: how it stands, the error that its record stands for, and
where it stopped. -/
def report (s : State) : StepReport where
  status := s.status
  error := s.diagnosis.toOption.join
  address := if s.fault.raised then some s.fault.address else none

theorem Reached.after {d : Dialect} {seed : BitVec 64} {s : State} (h : s.Reached d seed)
    (c : Call) : (s.after d c).Reached d seed := by
  cases c with
  | step => exact h.step
  | tick => exact h.tick
  | setKeys keys => exact h.keys _
  | pressKey key down => exact h.keys _
  | takeDrawn => exact h.look
  | load image => exact h
  | reset => exact h

theorem Reached.foldl {d : Dialect} {seed : BitVec 64} {s : State} (h : s.Reached d seed)
    (calls : List Call) : (calls.foldl (State.after d) s).Reached d seed := by
  induction calls generalizing s with
  | nil => exact h
  | cons c rest ih => exact ih (h.after c)

theorem status_eq_halted_iff {s : State} : s.status = .halted ↔ s.fault.code ≠ 0 := by
  rw [← raised_iff, status]
  split
  · next hr => simp [hr]
  · next hr => split <;> simp [hr]

theorem status_eq_waiting_iff {s : State} :
    s.status = .waiting ↔ s.fault.code = 0 ∧ s.waiting = true := by
  rw [← not_raised_iff, status]
  split
  · next hr => simp [hr]
  · next hr => split <;> simp_all

theorem status_eq_ready_iff {s : State} :
    s.status = .ready ↔ s.fault.code = 0 ∧ s.waiting = false := by
  rw [← not_raised_iff, status]
  split
  · next hr => simp [hr]
  · next hr => split <;> simp_all

end State

/-- A program and its state. -/
structure Session where
  image : List Byte
  state : State
  deriving DecidableEq

namespace Session

/-- A program at its start, if it fits. -/
def start (seed : BitVec 64) (image : List Byte) : Except Error Session :=
  ((State.fresh (Random.Key.ofSeed seed)).load image).map (Session.mk image)

/-- The session after a call. A program that does not fit is not started. -/
def call (d : Dialect) (seed : BitVec 64) (p : Session) : Call → Session
  | .load image => (start seed image).toOption.getD p
  | .reset => (start seed p.image).toOption.getD p
  | c => {p with state := p.state.after d c}

end Session

namespace Machine

/-- What a machine is without what it remembers for its host. -/
def session (m : Machine) : Session := ⟨m.image, m.state⟩

/-- What a machine remembers for its host. -/
def told (m : Machine) : StepReport := ⟨m.status, m.error, m.haltAddress⟩

variable {d : Dialect} {seed : BitVec 64} {m : Machine}

/-! ### One call -/

theorem map_session_create (d : Dialect) (seed : BitVec 64) (image : List Byte) :
    (create d seed image).map session = Session.start seed image := by
  rw [create, boot, Session.start]
  cases (State.fresh (Random.Key.ofSeed seed)).load image <;> rfl

/-- Also a step of a machine that has halted is the step of its state. -/
theorem Consistent.state_step (h : m.Consistent d seed) : m.step.1.state = m.state.step d := by
  by_cases hh : m.status = .halted
  · rw [step_of_halted hh, State.step_of_raised (h.raised_iff.1 hh)]
  · rw [Machine.state_step hh, h.dialect_eq]

theorem image_step (m : Machine) : m.step.1.image = m.image := by
  unfold step
  split
  · rfl
  · dsimp only
    split <;> rfl

theorem session_settle_withKeypad (m : Machine) (failure : Refusal → Reply)
    (keys : Except Refusal Keypad) :
    (m.settle failure (keys.map m.withKeypad)).1.session =
      ⟨m.image, m.state.withKeypad (keys.toOption.getD m.state.keypad)⟩ := by
  cases keys <;> rfl

theorem session_settle_create (m : Machine) (failure : Error → Reply) (d : Dialect)
    (seed : BitVec 64) (image : List Byte) :
    (m.settle failure (create d seed image)).1.session =
      (Session.start seed image).toOption.getD m.session := by
  rw [← map_session_create d]
  cases create d seed image <;> rfl

theorem Consistent.session_call (h : m.Consistent d seed) (c : Call) :
    (m.call c).1.session = m.session.call d seed c := by
  cases c with
  | step =>
    show Session.mk m.step.1.image m.step.1.state = _
    rw [image_step, h.state_step]
    rfl
  | tick => rfl
  | setKeys keys => exact session_settle_withKeypad m _ _
  | pressKey key down => exact session_settle_withKeypad m _ _
  | takeDrawn => rfl
  | load image =>
    rw [Machine.call, Machine.load, h.seed_eq, session_settle_create]
    rfl
  | reset =>
    rw [Machine.call, Machine.reset, Machine.load, h.seed_eq, session_settle_create]
    rfl

theorem Consistent.state_call (h : m.Consistent d seed) {c : Call} (hc : c.goesOn = true) :
    (m.call c).1.state = m.state.after d c := by
  have hs := congrArg Session.state (h.session_call c)
  cases c with
  | load image => cases hc
  | reset => cases hc
  | _ => exact hs

/-- A machine remembers what there is to tell about its state. -/
theorem Consistent.told_eq (h : m.Consistent d seed) : m.told = m.state.report := by
  have haddress : m.haltAddress =
      if m.state.fault.raised then some m.state.fault.address else none := by
    rw [haltAddress]
    cases he : m.error with
    | none => rw [h.error_eq_none_iff.1 he, if_neg Bool.false_ne_true, Option.map_none]
    | some e =>
      have hr : m.state.fault.raised = true := by
        rw [← Bool.not_eq_false, ← h.error_eq_none_iff, he]
        simp
      rw [hr, if_pos rfl, Option.map_some]
  rw [told, State.report, h.status_eq, h.error_eq, haddress]
  rfl

theorem Consistent.exists_error (h : m.Consistent d seed) (hh : m.status = .halted) :
    ∃ e, m.error = some e := by
  rw [← Option.ne_none_iff_exists', ne_eq, h.error_eq_none_iff, Bool.not_eq_false, ← h.raised_iff]
  exact hh

theorem Consistent.told_of_halted (h : m.Consistent d seed) (hh : m.status = .halted) :
    m.told = ⟨.halted, m.error, some m.state.fault.address⟩ := by
  have haddress : m.haltAddress = some m.state.fault.address := by
    calc m.haltAddress = m.state.report.address := congrArg StepReport.address h.told_eq
      _ = some m.state.fault.address := if_pos (h.raised_iff.1 hh)
  rw [told, hh, haddress]

/-- What a machine tells about a step is what it remembers from then on. -/
theorem Consistent.report_step (h : m.Consistent d seed) : m.step.2 = m.step.1.told := by
  unfold Machine.step
  split
  · next hh => rw [told, hh]
  · next hh =>
    dsimp only
    split
    · rfl
    · have hr : m.state.fault.raised = false := by
        rw [← Bool.not_eq_true, ← h.raised_iff]
        exact hh
      simp only [told, haltAddress, h.error_eq_none_iff.2 hr, Option.map_none]

/-- A step that leaves no fault record. -/
theorem Consistent.step_of_code (h : m.Consistent d seed) {s : State} (hs : m.state.step d = s)
    (hcode : s.fault.code = 0) {st : Status} (hst : s.status = st) :
    m.step = ({m with state := s, status := st}, ⟨st, none, none⟩) := by
  have hh : m.status ≠ .halted := by
    intro hh
    rw [State.step_of_raised (h.raised_iff.1 hh)] at hs
    rw [← hs] at hcode
    exact State.raised_iff.1 (h.raised_iff.1 hh) hcode
  have hstatus : st = if s.waiting then .waiting else .ready := by
    rw [← hst, State.status, State.not_raised_iff.2 hcode, if_neg Bool.false_ne_true]
  rw [← h.dialect_eq] at hs
  have hnone : (m.state.step m.dialect).diagnosis = .ok none := by
    rw [hs, State.diagnosis, hcode]
    rfl
  rw [step_of_none hh hnone, hs, hstatus]

/-! ### Lists of calls -/

theorem Consistent.session_run (h : m.Consistent d seed) (calls : List Call) :
    (m.run calls).1.session = calls.foldl (Session.call d seed) m.session := by
  induction calls generalizing m with
  | nil => rfl
  | cons c rest ih => rw [List.foldl_cons, ← h.session_call c, ← ih (h.call c), Machine.run]

theorem Consistent.state_run (h : m.Consistent d seed) {calls : List Call}
    (hc : ∀ c ∈ calls, c.goesOn = true) :
    (m.run calls).1.state = calls.foldl (State.after d) m.state := by
  induction calls generalizing m with
  | nil => rfl
  | cons c rest ih =>
    rw [List.forall_mem_cons] at hc
    rw [List.foldl_cons, ← h.state_call hc.1, ← ih (h.call c) hc.2, Machine.run]

/-- Each call is answered by the machine that the calls before it made. -/
theorem getElem?_replies (m : Machine) (calls : List Call) (k : Nat) :
    (m.run calls).2[k]? = calls[k]?.map fun c => ((m.run (calls.take k)).1.call c).2 := by
  induction calls generalizing m k with
  | nil => rfl
  | cons c rest ih =>
    cases k with
    | zero => rfl
    | succ k =>
      rw [List.getElem?_cons_succ, List.take_succ_cons]
      exact ih (m.call c).1 k

theorem run_take_succ {m : Machine} {calls : List Call} {k : Nat} {c : Call}
    (hk : calls[k]? = some c) :
    (m.run (calls.take (k + 1))).1 = ((m.run (calls.take k)).1.call c).1 := by
  rw [List.take_add_one, hk, run_append]
  rfl

end Machine

/-- **A machine is its session.** After every list of calls its program and state are those of the
session, and its status, error and replies to steps are what there is to tell about them. -/
theorem run_refines (d : Dialect) (seed : BitVec 64) (image : List Byte) :
    (Machine.create d seed image).map Machine.session = Session.start seed image ∧
      ∀ m, Machine.create d seed image = .ok m → ∀ calls : List Call,
        let n := (m.run calls).1
        let after := List.foldl (Session.call d seed) m.session
        n.session = after calls ∧
          (n.status = .halted ↔ n.state.fault.code ≠ 0) ∧
          (n.status = .waiting ↔ n.state.fault.code = 0 ∧ n.state.waiting = true) ∧
          (n.status = .ready ↔ n.state.fault.code = 0 ∧ n.state.waiting = false) ∧
          n.state.diagnosis = .ok n.error ∧ (n.error = none ↔ n.status ≠ .halted) ∧
          ∀ k : Nat, calls[k]? = some .step →
            (m.run calls).2[k]? = some (.stepped (after (calls.take (k + 1))).state.report) := by
  refine ⟨Machine.map_session_create d seed image, fun m hm calls => ?_⟩
  intro n after
  have hm := Machine.consistent_create hm
  have hn : n.Consistent d seed := hm.run calls
  refine ⟨hm.session_run calls, ?_, ?_, ?_, hn.error_eq, ?_, fun k hk => ?_⟩
  · rw [hn.status_eq, State.status_eq_halted_iff]
  · rw [hn.status_eq, State.status_eq_waiting_iff]
  · rw [hn.status_eq, State.status_eq_ready_iff]
  · rw [hn.error_eq_none_iff, ne_eq, hn.raised_iff, Bool.not_eq_true]
  · have hb := hm.run (calls.take k)
    have hlast : after (calls.take (k + 1)) = (m.run (calls.take (k + 1))).1.session :=
      (hm.session_run (calls.take (k + 1))).symm
    rw [hlast, Machine.run_take_succ hk, Machine.getElem?_replies, hk]
    show some (Reply.stepped (m.run (calls.take k)).1.step.2) = _
    rw [hb.report_step, hb.step.told_eq]
    rfl

/-- A program that waits for a key and then returns from nowhere. Its host presses a key, and makes
another step after the machine has halted. -/
theorem run_refines_halted :
    let image : List Byte := [0xF0, 0x0A, 0x00, 0xEE]
    let calls : List Call := [.step, .pressKey 3 true, .step, .step, .tick, .setKeys ⟨[8], []⟩,
      .step]
    let report : StepReport := ⟨.halted, some (.stackUnderflow (some 0x202)), some 0x202⟩
    ∃ m, Machine.create .modern 0 image = .ok m ∧ (m.run calls).1.status = .halted ∧
      (m.run calls).1.session = calls.foldl (Session.call .modern 0) m.session ∧
      (m.run calls).2[6]? = some (.stepped report) := by
  intro image calls report
  have hfits : image.length ≤ maxProgramSize := by decide
  obtain ⟨m, hm⟩ := Machine.create_of_le .modern 0 hfits
  have heval : ((Session.start 0 image).toOption.any fun p =>
      let q := calls.foldl (Session.call .modern 0) p
      decide (q.state.fault.code ≠ 0 ∧ q.state.report = report)) = true := by
    decide +kernel
  obtain ⟨hstart, hrefines⟩ := run_refines .modern 0 image
  rw [← hstart, hm] at heval
  simp only [Except.map, Except.toOption, Option.any_some, decide_eq_true_eq] at heval
  obtain ⟨hcode, hreport⟩ := heval
  obtain ⟨hsession, hhalted, -, -, -, -, hreplies⟩ := hrefines m hm calls
  refine ⟨m, hm, hhalted.2 ?_, hsession, ?_⟩
  · rw [← congrArg Session.state hsession] at hcode
    exact hcode
  · rw [hreplies 6 rfl]
    exact congrArg (fun r => some (Reply.stepped r)) hreport

end Chip8
