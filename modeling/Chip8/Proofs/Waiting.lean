import Chip8.Proofs.FaultCondition
import Chip8.Proofs.Session
import Chip8.Proofs.Timers
import Mathlib.Data.List.Chain

/-!
Waiting for a key.

The instruction that waits keeps the keypad of its step, and each step after it keeps the keypad it
looks at, so a look compares two neighbours in the list of the keypads at the steps (`polled`). What
the host does to the keys between two steps is not seen. `Held` says what is left of a machine that
waits: everything but the keypad, the keypad last seen, and the timers. It is kept call by call as
long as no key goes down from one keypad in the list to the next. The main result `wait_protocol` is
that this is how a wait goes on, and that the first key that does go down ends it.
-/
namespace Chip8

namespace Keypad
variable {before now : Keypad} {key : Fin 16}

/-- No key that was up is down. -/
def NoPress (before now : Keypad) : Prop :=
  ∀ key : Fin 16, now.get key = true → before.get key = true

instance : DecidableRel NoPress := fun before now =>
  inferInstanceAs (Decidable (∀ key : Fin 16, now.get key = true → before.get key = true))

/-- A key that was up is down, and it is the lowest such key. -/
structure FirstPress (before now : Keypad) (key : Fin 16) : Prop where
  down : now.get key = true
  up : before.get key = false
  lowest : ∀ lower < key, now.get lower = true → before.get lower = true

theorem firstPressed?_of_noPress (h : NoPress before now) : firstPressed? now before = none :=
  firstPressed?_eq_none_iff.2 h

theorem firstPressed?_of_firstPress (h : FirstPress before now key) :
    firstPressed? now before = some key :=
  firstPressed?_eq_some_iff.2 ⟨h.down, h.up, h.lowest⟩

theorem exists_firstPress (h : ¬ NoPress before now) : ∃ key, FirstPress before now key := by
  cases hf : firstPressed? now before with
  | none => exact absurd (firstPressed?_eq_none_iff.1 hf) h
  | some key =>
    obtain ⟨hdown, hup, hlowest⟩ := firstPressed?_eq_some_iff.1 hf
    exact ⟨key, hdown, hup, hlowest⟩

/-- A key that was down at first is pressed only after it was up in between. -/
theorem FirstPress.exists_up {first : Keypad} {keypads : List Keypad}
    (h : FirstPress (keypads.getLastD first) now key) (hfirst : first.get key = true) :
    ∃ k ∈ keypads, k.get key = false := by
  rcases List.mem_cons.1 (List.getLastD_mem_cons (l := keypads) (a := first)) with hlast | hlast
  · have hup := h.up
    rw [hlast, hfirst] at hup
    cases hup
  · exact ⟨_, hlast, h.up⟩

end Keypad

namespace State
open Keypad (NoPress FirstPress)
variable {d : Dialect} {s : State} {x : Nibble}

/-! ### One step -/

theorem step_waitKey (hpc : s.pc.toNat < 4096) (hr : s.fault.raised = false)
    (hk : s.waiting = false) (hw : s.wordAt s.pc = Instruction.encode (.waitKey x)) :
    s.step d = {s with waiting := true, keyTarget := x.toNat, keysSeen := s.keypad} := by
  apply step_of_encode hr hk hw (by simp [Instruction.Shadowed])
  simp only [perform, attempt, fetch, wrap_sub_wrap_add hpc]

theorem poll_of_noPress (h : NoPress s.keysSeen s.keypad) : s.poll = {s with keysSeen := s.keypad} := by
  rw [poll, Keypad.firstPressed?_of_noPress h]

/-- The awaited key goes to the register that the instruction names. -/
theorem receiveKey_eq (h : s.keyTarget = x.toNat) (key : Fin 16) :
    s.receiveKey key = s.registers.write x (BitVec.ofNat 8 key) := by
  have hslot : slot? 16 s.keyTarget = some ⟨x.toNat, x.toNat_lt⟩ := by
    rw [h, slot?_of_lt (Int.natCast_nonneg _) (Int.ofNat_lt.2 x.toNat_lt)]
    rfl
  rw [receiveKey, hslot]
  rfl

theorem poll_of_firstPress {key : Fin 16} (h : FirstPress s.keysSeen s.keypad key)
    (hx : s.keyTarget = x.toNat) :
    s.poll =
      {s with
        registers := s.registers.write x (BitVec.ofNat 8 key)
        pc := (s.pc + 2).wrap
        waiting := false
        keysSeen := s.keypad} := by
  rw [← receiveKey_eq hx, poll, Keypad.firstPressed?_of_firstPress h]

end State

namespace Machine
open Keypad (NoPress FirstPress)

/-- The keypads that a machine has at the steps among some calls. -/
def polled (m : Machine) : List Call → List Keypad
  | [] => []
  | c :: rest =>
    let later := (m.call c).1.polled rest
    if c = .step then m.state.keypad :: later else later

/-- Machine `n` is what is left of `p` after a number of ticks, if nothing else happened but that
keys were set and looked at, the last time as `seen`. -/
structure Held (p n : Machine) (ticks : Nat) (seen : Keypad) : Prop where
  eq : n = {p with state := {p.state with
    keypad := n.state.keypad
    keysSeen := seen
    delayTimer := n.state.delayTimer
    soundTimer := n.state.soundTimer}}
  delayTimer : n.state.delayTimer.toNat = p.state.delayTimer.toNat - ticks
  soundTimer : n.state.soundTimer.toNat = p.state.soundTimer.toNat - ticks

variable {d : Dialect} {seed : BitVec 64} {p n : Machine} {ticks : Nat} {seen : Keypad}

theorem Held.refl (p : Machine) : Held p p 0 p.state.keysSeen := ⟨rfl, rfl, rfl⟩

/-! ### One call -/

theorem Held.tick (h : Held p n ticks seen) : Held p n.tick (ticks + 1) seen where
  eq := by
    have heq := h.eq
    rw [Machine.tick, heq]
    rfl
  delayTimer := by
    show (if n.state.delayTimer = 0 then 0 else n.state.delayTimer - 1).toNat = _
    rw [State.toNat_countDown, h.delayTimer, Nat.sub_sub]
  soundTimer := by
    show (if n.state.soundTimer = 0 then 0 else n.state.soundTimer - 1).toNat = _
    rw [State.toNat_countDown, h.soundTimer, Nat.sub_sub]

theorem Held.withKeypad (h : Held p n ticks seen) (k : Keypad) :
    Held p (n.withKeypad k) ticks seen where
  eq := by
    have heq := h.eq
    rw [Machine.withKeypad, heq]
    rfl
  delayTimer := h.delayTimer
  soundTimer := h.soundTimer

theorem Held.settle (h : Held p n ticks seen) (keys : Except Refusal Keypad) :
    Held p (n.settle .refused (keys.map n.withKeypad)).1 ticks seen := by
  cases keys with
  | error r => exact h
  | ok k => exact h.withKeypad k

/-- What is left of a machine that waits is waiting. -/
theorem Held.waits (h : Held p n ticks seen) (hp : p.state.fault.code = 0 ∧ p.state.waiting = true) :
    n.state.fault.code = 0 ∧ n.state.waiting = true := by
  rw [h.eq]
  exact hp

/-- A step that sees no key go down. -/
theorem Held.step (h : Held p n ticks seen) (hn : n.Consistent d seed)
    (hp : p.state.fault.code = 0 ∧ p.state.waiting = true) (hq : NoPress seen n.state.keypad) :
    n.step.2 = ⟨.waiting, none, none⟩ ∧ Held p n.step.1 ticks n.state.keypad := by
  obtain ⟨hcode, hk⟩ := h.waits hp
  have hseen : n.state.keysSeen = seen := by rw [h.eq]
  have hstep : n.state.step d = {n.state with keysSeen := n.state.keypad} := by
    rw [State.step_of_waiting (State.not_raised_iff.2 hcode) hk, State.poll_of_noPress]
    rw [hseen]
    exact hq
  have hstatus : n.status = .waiting := by
    rw [hn.status_eq, State.status_eq_waiting_iff]
    exact ⟨hcode, hk⟩
  rw [hn.step_of_code hstep hcode (hn.status_eq.symm.trans hstatus)]
  refine ⟨rfl, ⟨?_, h.delayTimer, h.soundTimer⟩⟩
  have heq := h.eq
  rw [← hstatus, heq]

/-! ### Lists of calls -/

/-- A machine goes on waiting as long as no key goes down from one step to the next. -/
theorem Held.run (h : Held p n ticks seen) (hn : n.Consistent d seed)
    (hp : p.state.fault.code = 0 ∧ p.state.waiting = true) {calls : List Call}
    (hc : ∀ c ∈ calls, c.goesOn = true ∧ c ≠ .takeDrawn)
    (hq : (seen :: n.polled calls).IsChain NoPress) :
    Held p (n.run calls).1 (ticks + calls.count .tick) ((n.polled calls).getLastD seen) ∧
      ∀ k : Nat, calls[k]? = some .step →
        (n.run calls).2[k]? = some (.stepped ⟨.waiting, none, none⟩) := by
  induction calls generalizing n ticks seen with
  | nil => exact ⟨h, fun k hk => by cases hk⟩
  | cons c rest ih =>
    rw [List.forall_mem_cons] at hc
    -- a call that is no step is not looked at
    have hother {ticks' : Nat} (hs : c ≠ .step) (ht : ticks' + rest.count .tick =
        ticks + (c :: rest).count .tick) (hnext : Held p (n.call c).1 ticks' seen) :
        Held p (n.run (c :: rest)).1 (ticks + (c :: rest).count .tick)
            ((n.polled (c :: rest)).getLastD seen) ∧
          ∀ k : Nat, (c :: rest)[k]? = some .step →
            (n.run (c :: rest)).2[k]? = some (.stepped ⟨.waiting, none, none⟩) := by
      rw [polled, if_neg hs] at hq ⊢
      obtain ⟨hlast, hreplies⟩ := ih hnext (hn.call c) hc.2 hq
      refine ⟨ht ▸ hlast, fun k hk => ?_⟩
      cases k with
      | zero => exact absurd (Option.some.inj hk) hs
      | succ k => exact hreplies k hk
    cases c with
    | step =>
      rw [polled, if_pos rfl, List.isChain_cons_cons] at hq
      obtain ⟨hreport, hnext⟩ := h.step hn hp hq.1
      obtain ⟨hlast, hreplies⟩ := ih hnext (hn.call .step) hc.2 hq.2
      rw [polled, if_pos rfl, List.getLastD_cons, List.count_cons_of_ne (by decide)]
      refine ⟨hlast, fun k hk => ?_⟩
      cases k with
      | zero => exact congrArg (fun r => some (Reply.stepped r)) hreport
      | succ k => exact hreplies k hk
    | tick => exact hother (by decide) (by rw [List.count_cons_self]; omega) h.tick
    | setKeys keys =>
      exact hother (by simp) (by rw [List.count_cons_of_ne (by simp)]) (h.settle _)
    | pressKey key down =>
      exact hother (by simp) (by rw [List.count_cons_of_ne (by simp)]) (h.settle _)
    | takeDrawn => exact absurd rfl hc.1.2
    | load image => cases hc.1.1
    | reset => cases hc.1.1

/-- The step that sees a key go down ends the wait. -/
theorem Held.step_of_firstPress (h : Held p n ticks seen) (hn : n.Consistent d seed)
    (hp : p.state.fault.code = 0 ∧ p.state.waiting = true) {x : Nibble}
    (hx : p.state.keyTarget = x.toNat) {key : Fin 16}
    (hkey : FirstPress seen n.state.keypad key) :
    n.step =
      ({n with
          state := {n.state with
            registers := n.state.registers.write x (BitVec.ofNat 8 key)
            pc := (n.state.pc + 2).wrap
            waiting := false
            keysSeen := n.state.keypad}
          status := .ready},
        ⟨.ready, none, none⟩) := by
  obtain ⟨hcode, hk⟩ := h.waits hp
  have hseen : n.state.keysSeen = seen := by rw [h.eq]
  have htarget : n.state.keyTarget = x.toNat := by rw [h.eq, ← hx]
  rw [← hseen] at hkey
  have hstep := State.step_of_waiting (d := d) (State.not_raised_iff.2 hcode) hk
  rw [State.poll_of_firstPress hkey htarget] at hstep
  exact hn.step_of_code hstep hcode (State.status_eq_ready_iff.2 ⟨hcode, rfl⟩)

end Machine

open Keypad (NoPress FirstPress)

/-- **A wait ends with the first key that goes down.** The first step that finds a key down which
was up at the step before puts the lowest such key into `VX`. -/
theorem wait_protocol (d : Dialect) (seed : BitVec 64) (image : List Byte)
    (h : image.length ≤ maxProgramSize) :
    ∃ m, Machine.create d seed image = .ok m ∧ ∀ (calls : List Call) (x : Nibble),
      let p := (m.run calls).1
      p.state.fault.code = 0 → p.state.waiting = false →
      p.state.wordAt p.state.pc = Instruction.encode (.waitKey x) →
      p.step.2 = ⟨.waiting, none, none⟩ ∧
      ∀ hosted : List Call, (∀ c ∈ hosted, c.goesOn = true ∧ c ≠ .takeDrawn) →
        let n := (p.step.1.run hosted).1
        let keypads := p.step.1.polled hosted
        let last := keypads.getLastD p.state.keypad
        (p.state.keypad :: keypads).IsChain NoPress →
          n = {p with
            state := {p.state with
              waiting := true
              keyTarget := x.toNat
              keysSeen := last
              keypad := n.state.keypad
              delayTimer := n.state.delayTimer
              soundTimer := n.state.soundTimer}
            status := .waiting} ∧
          n.state.delayTimer.toNat = p.state.delayTimer.toNat - hosted.count .tick ∧
          n.state.soundTimer.toNat = p.state.soundTimer.toNat - hosted.count .tick ∧
          (∀ k : Nat, hosted[k]? = some .step →
            (p.step.1.run hosted).2[k]? = some (.stepped ⟨.waiting, none, none⟩)) ∧
          (¬ NoPress last n.state.keypad → ∃ key, FirstPress last n.state.keypad key ∧
            (p.state.keypad.get key = true → ∃ k ∈ keypads, k.get key = false) ∧
            n.step =
              ({n with
                  state := {n.state with
                    registers := n.state.registers.write x (BitVec.ofNat 8 key)
                    pc := BitVec.ofNat 16 ((p.state.pc.toNat + 2) % 4096)
                    waiting := false
                    keysSeen := n.state.keypad}
                  status := .ready},
                ⟨.ready, none, none⟩)) := by
  obtain ⟨m, hm⟩ := Machine.create_of_le d seed h
  refine ⟨m, hm, fun calls x => ?_⟩
  intro p hr hk hw
  have hpc : p.Consistent d seed := (Machine.consistent_create hm).run calls
  have hstep : p.state.step d =
      {p.state with waiting := true, keyTarget := x.toNat, keysSeen := p.state.keypad} :=
    State.step_waitKey hpc.reached.wellFormed.pc_lt (State.not_raised_iff.2 hr) hk hw
  have hfirst := hpc.step_of_code hstep hr (State.status_eq_waiting_iff.2 ⟨hr, rfl⟩)
  refine ⟨by rw [hfirst], fun hosted hc => ?_⟩
  intro n keypads last hq
  have hwaits : p.step.1.state.fault.code = 0 ∧ p.step.1.state.waiting = true := by
    rw [hfirst]
    exact ⟨hr, rfl⟩
  -- the machine that begins to wait has seen the keypad of this step, the first in the chain
  have hseen : p.step.1.state.keysSeen = p.state.keypad := by rw [hfirst]
  have hbegin := Machine.Held.refl p.step.1
  rw [hseen] at hbegin
  have hrun := hbegin.run hpc.step hwaits hc hq
  rw [Nat.zero_add] at hrun
  have hheld : Machine.Held p.step.1 n (hosted.count .tick) last := hrun.1
  have heq := hheld.eq
  have hdelay := hheld.delayTimer
  have hsound := hheld.soundTimer
  rw [hfirst] at heq hdelay hsound
  refine ⟨heq, hdelay, hsound, hrun.2, fun hpress => ?_⟩
  obtain ⟨key, hkey⟩ := Keypad.exists_firstPress hpress
  have htarget : p.step.1.state.keyTarget = x.toNat := by rw [hfirst]
  have hcounter : (n.state.pc + 2).wrap = BitVec.ofNat 16 ((p.state.pc.toNat + 2) % 4096) := by
    rw [heq]
    exact Word.wrap_add p.state.pc 2
  refine ⟨key, hkey, hkey.exists_up, ?_⟩
  rw [← hcounter]
  exact hheld.step_of_firstPress (hpc.step.run hosted) hwaits htarget hkey

/-- Key 5 is held as the wait begins. It is let go and pressed again between two steps, which is not
seen, and then across a step, which ends the wait, though key 9 was pressed first. -/
theorem wait_protocol_held :
    let image : List Byte := [0xFF, 0x0A]
    let calls : List Call := [.pressKey 5 true]
    let hosted : List Call := [.step, .tick, .pressKey 5 false, .pressKey 5 true, .step,
      .pressKey 5 false, .step, .pressKey 9 true, .pressKey 5 true]
    image.length ≤ maxProgramSize ∧ ∃ m, Machine.create .modern 0 image = .ok m ∧
      let p := (m.run calls).1
      let n := (p.step.1.run hosted).1
      p.step.2 = ⟨.waiting, none, none⟩ ∧
        (p.step.1.run hosted).2[6]? = some (.stepped ⟨.waiting, none, none⟩) ∧
        n.step.2 = ⟨.ready, none, none⟩ ∧
        n.step.1.state.registers = n.state.registers.write (0xF : Nibble) 5 ∧
        n.step.1.state.pc = 0x202 := by
  intro image calls hosted
  have h : image.length ≤ maxProgramSize := by decide
  have heval : ((Machine.create .modern 0 image).toOption.any fun m =>
      let p := (m.run calls).1
      let n := (p.step.1.run hosted).1
      let keypads := p.step.1.polled hosted
      let last := keypads.getLastD p.state.keypad
      decide ((p.state.fault.code = 0 ∧ p.state.waiting = false ∧ p.state.pc = 0x200 ∧
          p.state.wordAt p.state.pc = Instruction.encode (.waitKey 0xF)) ∧
        (p.state.keypad :: keypads).IsChain NoPress ∧ ¬ NoPress last n.state.keypad ∧
        Keypad.firstPressed? n.state.keypad last = some 5)) = true := by
    decide +kernel
  obtain ⟨m, hm, hwait⟩ := wait_protocol .modern 0 image h
  rw [hm] at heval
  obtain ⟨⟨hr, hk, hpc, hw⟩, hquiet, hpress, hfirst⟩ := of_decide_eq_true heval
  obtain ⟨hbegin, hgoes⟩ := hwait calls 0xF hr hk hw
  obtain ⟨-, -, -, hreplies, hend⟩ := hgoes hosted (by decide) hquiet
  obtain ⟨key, hkey, -, hstep⟩ := hend hpress
  have hfive : key = 5 := by
    rw [Keypad.firstPressed?_of_firstPress hkey] at hfirst
    exact Option.some.inj hfirst
  refine ⟨h, m, hm, hbegin, hreplies 6 rfl, by rw [hstep], by rw [hstep, hfive]; rfl, ?_⟩
  rw [hstep, hpc]
  rfl

end Chip8
