import Chip8.Proofs.FaultCondition
import Chip8.Proofs.Frames
import Mathlib.Data.List.Induction

/-!
What is left to see of a fault.

A machine halts in the middle of whatever its host does, and the host may look later. By then the
clock has ticked and keys have changed, but nothing that the fault came from: `State.Stopped` says
that the fault record is that of the word still under the counter, and holds of every state with a
fault record (`Reached.stopped`). The calls that led to a halted machine have a step that failed,
and nothing was done since but what leaves the program alone (`HaltedAfter`). So the main result
`halted_diagnosable`: the fault can be made again from the state, and the word that a run shows to
its host is the one that the failing step fetched.
-/
namespace Chip8

namespace State
variable {d : Dialect} {seed : BitVec 64} {s t : State} {f : Fault}

/-! ### States that have stopped -/

/-- A state that stopped at the fault that the word under its counter meets. -/
structure Stopped (d : Dialect) (s : State) (f : Fault) : Prop where
  record : s.fault = FaultRecord.of f s.pc
  awake : s.waiting = false
  meets : Meets d s (s.wordAt s.pc) f

/-- A step that fails stops at the fault of its word. -/
theorem Stopped.of_fault (hs : 0 ≤ s.stack.pointer ∧ s.stack.pointer ≤ 16) (hk : s.waiting = false)
    (ho : s.fetch.1.outcome d (s.wordAt s.pc) = .error f) :
    ({s with fault := FaultRecord.of f s.pc} : State).Stopped d f where
  record := rfl
  awake := hk
  meets := ((outcome_eq_error_iff (s := s.fetch.1) hs).1 ho).congr rfl rfl

/-- The word under the counter fails again if the record is cleared. -/
theorem Stopped.step_clear (h : s.Stopped d f) :
    ({s with fault := FaultRecord.clear} : State).step d = s := by
  have ho : ({s with fault := FaultRecord.clear} : State).fetch.1.outcome d (s.wordAt s.pc) =
      .error f := outcome_of_meets (h.meets.congr rfl rfl)
  have hstep := step_of_fault (s := {s with fault := FaultRecord.clear}) rfl h.awake ho
  rw [hstep, ← h.record]

theorem Stopped.address_eq (h : s.Stopped d f) (hpc : s.pc.toNat < 4096) :
    s.fault.address = s.pc := by
  rw [h.record]
  exact Word.wrap_of_lt hpc

/-- What a host is told is made of the fault and the counter. -/
theorem Stopped.diagnosis_eq (h : s.Stopped d f) (hpc : s.pc.toNat < 4096) :
    s.diagnosis = .ok (some (Error.ofFault s.pc f)) := by
  rw [diagnosis, h.address_eq hpc, h.record]
  exact Error.ofRecord_code f s.pc

/-- An invalid word is the one under the counter. -/
theorem Stopped.eq_of_code (h : s.Stopped d f) (hcode : s.fault.code = 1) :
    f = .invalidOpcode (s.wordAt s.pc) := by
  have hf : f.code = 1 := by
    rw [h.record] at hcode
    exact hcode
  cases h.meets with
  | data hw => rfl
  | machineCode a hw hc hr hd => rfl
  | _ => cases hf

/-- A state with a fault record has stopped at its fault, whatever was done to it since. -/
theorem Reached.stopped (h : s.Reached d seed) (hr : s.fault.raised = true) :
    ∃ f, s.Stopped d f := by
  induction h with
  | boot h =>
    obtain ⟨-, rfl⟩ := Machine.boot_eq_ok_iff.1 h
    cases hr
  | @step s h ih =>
    rcases step_cases d s with ⟨hraised, hs⟩ | ⟨hrun, -, hs⟩ | ⟨-, hk, f, ho, hs⟩ | ⟨hrun, -, ho⟩
    · rw [hs]
      exact ih hraised
    · rw [hs, fault_poll, hrun] at hr
      cases hr
    · rw [hs]
      have hstack := h.wellFormed.stack
      exact ⟨f, .of_fault ⟨hstack.pointer_nonneg, hstack.pointer_le⟩ hk ho⟩
    · rw [fault_of_outcome ho] at hr
      change s.fault.raised = true at hr
      rw [hrun] at hr
      cases hr
  | tick _ ih | keys _ _ ih | look _ ih =>
    obtain ⟨f, hf⟩ := ih hr
    exact ⟨f, hf.record, hf.awake, hf.meets.congr rfl rfl⟩

/-! ### States that a host has changed -/

/-- State `t` is state `s` but for what a host changes between two steps. -/
def SameButHost (s t : State) : Prop :=
  t = {s with
    delayTimer := t.delayTimer
    soundTimer := t.soundTimer
    keypad := t.keypad
    drawn := t.drawn}

theorem SameButHost.trans {s t u : State} (h : SameButHost s t) (h' : SameButHost t u) :
    SameButHost s u := by
  unfold SameButHost at *
  rw [h', h]

theorem SameButHost.wordAt_eq (h : SameButHost s t) : t.wordAt t.pc = s.wordAt s.pc := by
  rw [h]
  rfl

theorem SameButFault.wordAt_eq (h : SameButFault s t) : t.wordAt t.pc = s.wordAt s.pc := by
  rw [h]
  rfl

end State

namespace Machine
open State (SameButHost)
variable {d : Dialect} {seed : BitVec 64} {m n : Machine}

/-! ### The step that failed -/

/-- A call is a step, changes what hosts change, or starts a program. -/
theorem call_cases (m : Machine) (c : Call) :
    c = .step ∨
      (∃ s, SameButHost m.state s ∧ (m.call c).1 = {m with state := s}) ∨
      ∃ image, create m.dialect m.seed image = .ok (m.call c).1 := by
  have hkeys (keys : Except Refusal Keypad) : ∃ s, SameButHost m.state s ∧
      (m.settle .refused (keys.map m.withKeypad)).1 = {m with state := s} := by
    cases keys with
    | error r => exact ⟨m.state, rfl, rfl⟩
    | ok k => exact ⟨m.state.withKeypad k, rfl, rfl⟩
  have hload (image : List Byte) : (∃ s, SameButHost m.state s ∧
      (m.settle .failed (m.load image)).1 = {m with state := s}) ∨
        ∃ image', create m.dialect m.seed image' = .ok (m.settle .failed (m.load image)).1 := by
    cases hl : m.load image with
    | error e => exact .inl ⟨m.state, rfl, rfl⟩
    | ok n => exact .inr ⟨image, hl⟩
  cases c with
  | step => exact .inl rfl
  | tick => exact .inr (.inl ⟨m.state.tick, rfl, rfl⟩)
  | setKeys keys => exact .inr (.inl (hkeys _))
  | pressKey key down => exact .inr (.inl (hkeys _))
  | takeDrawn => exact .inr (.inl ⟨{m.state with drawn := false}, rfl, rfl⟩)
  | load image => exact .inr (hload image)
  | reset => exact .inr (hload m.image)

theorem status_of_create {image : List Byte} (h : create d seed image = .ok m) :
    m.status = .ready := by
  obtain ⟨s, -, rfl⟩ := create_eq_ok_iff.1 h
  rfl

/-- Only a step halts a machine. -/
theorem eq_step_of_halted {c : Call} (h : m.status ≠ .halted)
    (hc : (m.call c).1.status = .halted) : c = .step := by
  rcases call_cases m c with hs | ⟨s, -, hn⟩ | ⟨image, hn⟩
  · exact hs
  · rw [hn] at hc
    exact absurd hc h
  · rw [status_of_create hn] at hc
    cases hc

/-- A call that leaves a machine halted changes what hosts change. -/
theorem sameButHost_call {c : Call} (h : m.status = .halted)
    (hc : (m.call c).1.status = .halted) : SameButHost m.state (m.call c).1.state := by
  rcases call_cases m c with rfl | ⟨s, hs, hn⟩ | ⟨image, hn⟩
  · rw [Machine.call, step_of_halted h]
    rfl
  · rw [hn]
    exact hs
  · rw [status_of_create hn] at hc
    cases hc

theorem sameButHost_run {calls : List Call}
    (h : ∀ k, (m.run (calls.take k)).1.status = .halted) :
    SameButHost m.state (m.run calls).1.state := by
  induction calls generalizing m with
  | nil => rfl
  | cons c rest ih =>
    have hfirst := sameButHost_call (h 0) (h 1)
    exact hfirst.trans (ih fun k => h (k + 1))

/-- Among some calls, the step after those before it halted the machine, which has not run since. -/
def HaltedAfter (m : Machine) (before calls : List Call) : Prop :=
  ∃ after, calls = before ++ .step :: after ∧ (m.run before).1.status ≠ .halted ∧
    ∀ k, ((m.run before).1.step.1.run (after.take k)).1.status = .halted

/-- A machine that has halted was halted by one of its steps. -/
theorem exists_haltedAfter (hm : m.status ≠ .halted) {calls : List Call}
    (h : (m.run calls).1.status = .halted) : ∃ before, m.HaltedAfter before calls := by
  -- from the end: the last call either found the machine halted or is the step itself
  induction calls using List.reverseRecOn with
  | nil => exact absurd h hm
  | append_singleton calls c ih =>
    have hlast : ((m.run calls).1.call c).1.status = .halted := by
      rw [run_append] at h
      exact h
    by_cases hprev : (m.run calls).1.status = .halted
    · obtain ⟨before, after, rfl, hran, hhalted⟩ := ih hprev
      refine ⟨before, after ++ [c], by rw [List.append_assoc, List.cons_append], hran, fun k => ?_⟩
      by_cases hk : k ≤ after.length
      · rw [List.take_append_of_le_length hk]
        exact hhalted k
      · have hall : after.length + 1 ≤ k := by omega
        rw [List.take_of_length_le (by rw [List.length_append]; exact hall), run_append]
        rw [run_append] at hlast
        exact hlast
    · have hstep := eq_step_of_halted hprev hlast
      subst hstep
      exact ⟨calls, [], rfl, hprev, fun k => by rw [List.take_nil]; exact hlast⟩

/-- The word that the failing step fetched is still the one under the counter. -/
theorem HaltedAfter.wordAt_eq (hm : m.Consistent d seed) {before calls : List Call}
    (h : m.HaltedAfter before calls) :
    (m.run calls).1.state.wordAt (m.run calls).1.state.pc = (m.run before).1.state.fetch.2 := by
  obtain ⟨after, rfl, hran, hhalted⟩ := h
  have hb : (m.run before).1.Consistent d seed := hm.run before
  have hrun : (m.run before).1.state.fault.raised = false := by
    rw [← Bool.not_eq_true, ← hb.raised_iff]
    exact hran
  have hraised : ((m.run before).1.state.step d).fault.raised = true := by
    rw [← hb.state_step, ← hb.step.raised_iff]
    exact hhalted 0
  rw [run_append]
  calc _ = (m.run before).1.step.1.state.wordAt (m.run before).1.step.1.state.pc :=
        (sameButHost_run hhalted).wordAt_eq
    _ = ((m.run before).1.state.step d).wordAt ((m.run before).1.state.step d).pc := by
        rw [hb.state_step]
    _ = (m.run before).1.state.fetch.2 := (State.step_of_raised_after hrun hraised).2.wordAt_eq

/-- What is to be said of a machine that has halted, when the failing step was that of machine
`b`. -/
structure Diagnosable (d : Dialect) (b m : Machine) : Prop where
  /-- The record has the address that the counter is at. -/
  address : m.state.fault.address = m.state.pc
  /-- The fault can be made again. -/
  again : ({m.state with fault := FaultRecord.clear} : State).step d = m.state
  /-- Steps tell the error that the machine remembers, and the counter. -/
  report : m.step.2 = ⟨.halted, m.error, some m.state.pc⟩
  /-- The word under the counter is the one that the failing step fetched. -/
  word : m.state.wordAt m.state.pc = b.state.fetch.2
  /-- If it is no instruction, the error names the word and the counter. -/
  invalid : m.state.fault.code = 1 →
    m.error = some (.invalidOpcode (some m.state.pc.toNat) b.state.fetch.2.toNat)

theorem HaltedAfter.diagnosable (hm : m.Consistent d seed) {before calls : List Call}
    (h : m.HaltedAfter before calls) (hn : (m.run calls).1.status = .halted) :
    Diagnosable d (m.run before).1 (m.run calls).1 := by
  have hword := h.wordAt_eq hm
  have hc : (m.run calls).1.Consistent d seed := hm.run calls
  generalize (m.run calls).1 = n at *
  obtain ⟨f, hf⟩ := hc.reached.stopped (hc.raised_iff.1 hn)
  have hpc := hc.reached.wellFormed.pc_lt
  have haddress := hf.address_eq hpc
  refine ⟨haddress, hf.step_clear, ?_, hword, fun hcode => ?_⟩
  · rw [← haddress, step_of_halted hn, ← hc.told_of_halted hn, told, hn]
  · have herror : n.error = some (Error.ofFault n.state.pc f) := by
      have he := hc.error_eq
      rw [hf.diagnosis_eq hpc] at he
      exact (Except.ok.inj he).symm
    rw [herror, hf.eq_of_code hcode, hword, Error.ofFault]

end Machine

/-- **A halted machine can be diagnosed, however late.** The counter is on the word that failed, the
record has that address, and the state without the record steps to the same fault again. So a run
tells the log that word. -/
theorem halted_diagnosable (d : Dialect) (seed : BitVec 64) (image : List Byte)
    (h : image.length ≤ maxProgramSize) :
    ∃ m, Machine.create d seed image = .ok m ∧ ∀ calls : List Call,
      ((m.run calls).1.status = .halted → ∃ before, m.HaltedAfter before calls ∧
        Machine.Diagnosable d (m.run before).1 (m.run calls).1) ∧
      ∀ (frames limit : Value) (shown : Bool) (keys : Frames.Keys) (result : StepReport),
        let r := Frames.runValues (m.run calls).1 frames limit shown keys
        r.ending = .halted result →
        ∃ made before e, r.machine = (m.run (calls ++ made)).1 ∧
          m.HaltedAfter before (calls ++ made) ∧
          Machine.Diagnosable d (m.run before).1 r.machine ∧
          result = ⟨.halted, some e, some r.machine.state.pc⟩ ∧
          r.messages.head? = some ⟨.error, e.message,
            [("pc", .integer r.machine.state.pc.toNat),
              ("opcode", .integer (m.run before).1.state.fetch.2.toNat)]⟩ := by
  obtain ⟨m, hm⟩ := Machine.create_of_le d seed h
  refine ⟨m, hm, fun calls => ?_⟩
  have hmc := Machine.consistent_create hm
  have hready : m.status ≠ .halted := by
    rw [Machine.status_of_create hm]
    decide
  have hdiagnosable {cs : List Call} (hn : (m.run cs).1.status = .halted) :
      ∃ before, m.HaltedAfter before cs ∧
        Machine.Diagnosable d (m.run before).1 (m.run cs).1 := by
    obtain ⟨before, hbefore⟩ := Machine.exists_haltedAfter hready hn
    exact ⟨before, hbefore, hbefore.diagnosable hmc hn⟩
  refine ⟨hdiagnosable, fun frames limit shown keys result => ?_⟩
  intro r hr
  have hdriven := Frames.driven_runValues (hmc.run calls) frames limit shown keys
  have hmade : r.machine = ((m.run calls).1.run r.calls).1 := hdriven.calls
  obtain ⟨hhalted, hresult⟩ := hdriven.halted result hr
  have hmachine : r.machine = (m.run (calls ++ r.calls)).1 := by
    rw [Machine.run_append]
    exact hmade
  have hrc : r.machine.Consistent d seed := hdriven.consistent (hmc.run calls)
  have hn : (m.run (calls ++ r.calls)).1.status = .halted := by rw [← hmachine]; exact hhalted
  obtain ⟨before, hbefore, hdiag⟩ := hdiagnosable hn
  rw [← hmachine] at hdiag
  obtain ⟨e, he⟩ := hrc.exists_error hhalted
  have hreport : result = ⟨.halted, some e, some r.machine.state.pc⟩ := by
    rw [hresult, hrc.told_of_halted hhalted, he, hdiag.address]
  refine ⟨r.calls, before, e, hmachine, hbefore, hdiag, hreport, ?_⟩
  rw [Frames.Run.messages, hr, hreport]
  simp only [Option.map_some, Option.getD_some, List.head?_cons, hdiag.word]

/-- A program sets the delay timer and comes to a word that is no instruction. The host looks at it
after a tick, a key and a look at the screen, or has it run for a frame after its first step. -/
theorem halted_diagnosable_late :
    let image : List Byte := [0x60, 0x05, 0xF0, 0x15, 0xFF, 0xFF]
    let calls : List Call := [.step, .step, .step, .tick, .pressKey 3 true, .takeDrawn]
    let error : Error := .invalidOpcode (some 0x204) 0xFFFF
    image.length ≤ maxProgramSize ∧ ∃ m, Machine.create .modern 0 image = .ok m ∧
      let n := (m.run calls).1
      let r := Frames.runValues (m.run [.step]).1 (.integer 1) (.integer 10) false none
      n.status = .halted ∧ n.state.delayTimer = 4 ∧
        ({n.state with fault := FaultRecord.clear} : State).step .modern = n.state ∧
        n.step.2 = ⟨.halted, some error, some 0x204⟩ ∧
        r.messages.head? =
          some ⟨.error, error.message, [("pc", .integer 0x204), ("opcode", .integer 0xFFFF)]⟩ := by
  intro image calls error
  have h : image.length ≤ maxProgramSize := by decide
  have heval : ((Machine.create .modern 0 image).toOption.any fun m =>
      let n := (m.run calls).1
      let r := Frames.runValues (m.run [.step]).1 (.integer 1) (.integer 10) false none
      decide ((n.status = .halted ∧ n.state.delayTimer = 4 ∧ n.state.fault.code = 1 ∧
          n.state.pc = 0x204 ∧ n.state.wordAt n.state.pc = 0xFFFF) ∧
        r.ending = .halted ⟨.halted, some error, some 0x204⟩ ∧
        r.machine.state.pc = 0x204 ∧ r.machine.state.wordAt r.machine.state.pc = 0xFFFF)) = true := by
    decide +kernel
  obtain ⟨m, hm, hdiagnosable⟩ := halted_diagnosable .modern 0 image h
  rw [hm] at heval
  obtain ⟨⟨hn, htimer, hcode, hpc, hword⟩, hending, hrpc, hrword⟩ := of_decide_eq_true heval
  obtain ⟨before, -, hdiag⟩ := (hdiagnosable calls).1 hn
  have herror : (m.run calls).1.error = some error := by
    rw [hdiag.invalid hcode, ← hdiag.word, hword, hpc]
    rfl
  obtain ⟨made, before, e, -, -, hfailed, hresult, hmessage⟩ :=
    (hdiagnosable [.step]).2 _ _ _ _ _ hending
  refine ⟨h, m, hm, hn, htimer, hdiag.again, by rw [hdiag.report, herror, hpc], ?_⟩
  have he : error = e := Option.some.inj (congrArg StepReport.error hresult)
  rw [← he, ← hfailed.word, hrword, hrpc] at hmessage
  exact hmessage

end Chip8
