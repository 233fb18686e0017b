import Chip8.Proofs.FaultCondition
import Chip8.Proofs.Session

/-!
Return addresses.

A call leaves the address after it on the stack, and what runs from there on may call and return as
it likes, also where it writes its own instructions. `SameBelow` says that two stacks agree below a
depth. A push changes nothing below the pointer it finds and a pop nothing below the pointer it
leaves, so a run changes nothing below the least depth it comes to (`sameBelow_foldl`). Hence the
main result `return_restores`: the return that matches a call goes on after the call, and the stack
is what it was before, slot by slot.
-/
namespace Chip8

namespace Stack
variable {e : Int} {s t u : Stack}

/-- Two stacks have the same slots below a depth. -/
def SameBelow (e : Int) (s t : Stack) : Prop := ∀ k : Fin 16, (k : Int) < e → t.slots[k] = s.slots[k]

theorem SameBelow.refl (e : Int) (s : Stack) : SameBelow e s s := fun _ _ => rfl

theorem SameBelow.trans (h : SameBelow e s t) (h' : SameBelow e t u) : SameBelow e s u :=
  fun k hk => (h' k hk).trans (h k hk)

theorem Sound.sameBelow_push (h : s.Sound) (hfull : s.pointer < 16) (he : e ≤ s.pointer) (a : Word) :
    SameBelow e s (s.push a).1 := by
  intro k hk
  rw [Stack.push, getElem_write h.pointer_nonneg hfull, if_neg (by omega)]

theorem Sound.sameBelow_pop (h : s.Sound) (he : e ≤ s.pop.stack.pointer) :
    SameBelow e s s.pop.stack := by
  intro k hk
  simp only [Stack.pop] at he
  rw [Stack.pop, getElem_write h.top.1 h.top.2, if_neg (by omega)]

/-- A pop takes back a push, whatever happened in between to the slots above. -/
theorem pop_of_sameBelow_push {a : Word} (hs : s.Sound) (ht : t.Sound)
    (hp : t.pointer = s.pointer + 1) (h : SameBelow t.pointer (s.push a).1 t) :
    t.pop = ⟨s, a.wrap, false⟩ := by
  have hlow := hs.pointer_nonneg
  have hhigh := ht.pointer_le
  have hfull : s.pointer < 16 := by omega
  have htop : max (t.pointer - 1) 0 = s.pointer := by omega
  have hslot (k : Fin 16) (hk : (k : Int) < t.pointer) :
      t.slots[k] = if s.pointer = k then a.wrap else s.slots[k] := by
    rw [h k hk]
    exact getElem_write hlow hfull a.wrap k
  have haddress : t.slots[min s.pointer.toNat 15] = a.wrap := by
    have := hslot ⟨min s.pointer.toNat 15, by omega⟩ (by simp only; omega)
    rw [if_pos (by simp only; omega)] at this
    exact this
  -- the slot of the call is clear again, and those above it were and are clear
  have hclear (k : Fin 16) : (write t.slots s.pointer 0)[k] = s.slots[k] := by
    rw [getElem_write hlow hfull]
    split
    · next hk => rw [hs.free k (by omega)]
    · next hk =>
      by_cases hbelow : (k : Int) < t.pointer
      · rw [hslot k hbelow, if_neg hk]
      · rw [ht.free k (by omega), hs.free k (by omega)]
  have hslots : write t.slots s.pointer 0 = s.slots := Vector.ext fun i hi => hclear ⟨i, hi⟩
  simp only [pop, htop, haddress, hslots, Popped.mk.injEq, true_and, decide_eq_false_iff_not]
  omega

end Stack

namespace State
open Stack (SameBelow)
variable {d : Dialect} {seed : BitVec 64} {s t : State} {e : Int}

/-! ### What runs do to the stack -/

theorem stack_poll (s : State) : s.poll.stack = s.stack := by
  rw [poll]
  split <;> rfl

/-- A step leaves the stack, takes an address off it, or puts one on it. -/
theorem stack_cases_step (d : Dialect) (s : State) :
    (s.step d).stack = s.stack ∨
      (0 < s.stack.pointer ∧ (s.step d).stack = s.stack.pop.stack) ∨
      (s.stack.pointer < 16 ∧ ∃ a, (s.step d).stack = (s.stack.push a).1) := by
  rcases step_cases d s with ⟨-, h⟩ | ⟨-, -, h⟩ | ⟨-, -, f, -, h⟩ | ⟨-, -, ho⟩
  · exact .inl (by rw [h])
  · exact .inl (by rw [h, stack_poll])
  · exact .inl (by rw [h])
  · obtain ⟨i, -, hi⟩ := outcome_eq_ok_iff.1 ho
    rcases stack_cases_of_perform hi with h | h | ⟨hfull, h⟩
    · exact .inl h
    · exact .inr (.inl h)
    · exact .inr (.inr ⟨hfull, _, h⟩)

theorem sameBelow_step (hs : s.stack.Sound) (he : e ≤ s.stack.pointer)
    (he' : e ≤ (s.step d).stack.pointer) : s.stack.SameBelow e (s.step d).stack := by
  rcases stack_cases_step d s with h | ⟨-, h⟩ | ⟨hfull, a, h⟩
  · rw [h]
    exact .refl e s.stack
  · rw [h] at he' ⊢
    exact hs.sameBelow_pop he'
  · rw [h]
    exact hs.sameBelow_push hfull he a

theorem sameBelow_after (hs : s.stack.Sound) (he : e ≤ s.stack.pointer) (c : Call)
    (he' : e ≤ (s.after d c).stack.pointer) : s.stack.SameBelow e (s.after d c).stack := by
  cases c with
  | step => exact sameBelow_step hs he he'
  | _ => exact .refl e s.stack

/-- Calls keep the slots below the least depth that they bring the stack to. -/
theorem sameBelow_foldl (hs : s.Reached d seed) (calls : List Call)
    (he : ∀ k, e ≤ ((calls.take k).foldl (after d) s).stack.pointer) :
    s.stack.SameBelow e (calls.foldl (after d) s).stack := by
  induction calls generalizing s with
  | nil => exact .refl e s.stack
  | cons c rest ih =>
    have hfirst := sameBelow_after hs.wellFormed.stack (he 0) c (he 1)
    exact hfirst.trans (ih (hs.after c) fun k => he (k + 1))

/-! ### Calls and returns -/

theorem step_call {a : Address} (hr : s.fault.raised = false) (hk : s.waiting = false)
    (hfull : s.stack.pointer < 16) (hw : s.wordAt s.pc = Instruction.encode (.call a)) :
    s.step d =
      {s with stack := (s.stack.push (s.pc + 2).wrap).1, pc := a.setWidth 16} := by
  apply step_of_encode hr hk hw (by simp [Instruction.Shadowed])
  have hroom : (s.stack.push (s.pc + 2).wrap).2 = false := by
    rw [Stack.push, decide_eq_false_iff_not, stackDepth]
    omega
  simp only [perform, fetch, hroom, Bool.false_eq_true, if_false]

theorem step_ret (hr : s.fault.raised = false) (hk : s.waiting = false)
    (hp : s.stack.pop.underflow = false) (hw : s.wordAt s.pc = Instruction.encode .ret) :
    s.step d = {s with stack := s.stack.pop.stack, pc := s.stack.pop.address} := by
  apply step_of_encode hr hk hw (by simp [Instruction.Shadowed])
  simp only [perform, fetch, hp, Bool.false_eq_true, if_false]

/-- Between a call and its return, the pop of the return undoes the push of the call. -/
theorem pop_of_call (hs : s.Reached d seed) {a : Address} (hr : s.fault.raised = false)
    (hk : s.waiting = false) (hfull : s.stack.pointer < 16)
    (hw : s.wordAt s.pc = Instruction.encode (.call a)) {calls : List Call}
    (he : ∀ k, s.stack.pointer + 1 ≤
      ((calls.take k).foldl (after d) (s.step d)).stack.pointer)
    (hp : (calls.foldl (after d) (s.step d)).stack.pointer = s.stack.pointer + 1) :
    (calls.foldl (after d) (s.step d)).stack.pop = ⟨s.stack, (s.pc + 2).wrap, false⟩ := by
  have hstack : (s.step d).stack = (s.stack.push (s.pc + 2).wrap).1 := by
    rw [step_call hr hk hfull hw]
  have hsame := sameBelow_foldl hs.step calls he
  have hlast : (calls.foldl (after d) (s.step d)).Reached d seed := hs.step.foldl calls
  rw [hstack, ← hp] at hsame
  rw [Stack.pop_of_sameBelow_push hs.wellFormed.stack hlast.wellFormed.stack hp hsame,
    Word.wrap_wrap]

end State

/-- **A return goes back to its call.** Whatever is done in between, with the stack never below the
address of the call, the return goes on after the call with the stack as before. -/
theorem return_restores (d : Dialect) (seed : BitVec 64) (image : List Byte)
    (h : image.length ≤ maxProgramSize) :
    ∃ m, Machine.create d seed image = .ok m ∧ ∀ (calls body : List Call) (a : Address),
      let p := (m.run calls).1
      let depth := p.state.stack.pointer
      let q := (p.step.1.run body).1
      p.state.fault.code = 0 → p.state.waiting = false → depth < 16 →
      p.state.wordAt p.state.pc = Instruction.encode (.call a) →
      (∀ c ∈ body, c.goesOn = true) →
      (∀ k, depth + 1 ≤ (p.step.1.run (body.take k)).1.state.stack.pointer) →
      q.state.stack.pointer = depth + 1 → q.state.fault.code = 0 → q.state.waiting = false →
      q.state.wordAt q.state.pc = Instruction.encode .ret →
      q.step.2 = ⟨.ready, none, none⟩ ∧
        q.step.1.state.pc.toNat = (p.state.pc.toNat + 2) % 4096 ∧
        q.step.1.state.stack = p.state.stack := by
  obtain ⟨m, hm⟩ := Machine.create_of_le d seed h
  refine ⟨m, hm, fun calls body a => ?_⟩
  intro p depth q hr hk hfull hw hbody he hp hqr hqk hqw
  have hpc : p.Consistent d seed := (Machine.consistent_create hm).run calls
  have hqc : q.Consistent d seed := hpc.step.run body
  have hrun {cs : List Call} (hcs : ∀ c ∈ cs, c.goesOn = true) :
      (p.step.1.run cs).1.state = cs.foldl (State.after d) (p.state.step d) := by
    rw [hpc.step.state_run hcs, hpc.state_step]
  have hpop : q.state.stack.pop = ⟨p.state.stack, (p.state.pc + 2).wrap, false⟩ := by
    rw [hrun hbody] at hp ⊢
    refine State.pop_of_call hpc.reached (State.not_raised_iff.2 hr) hk hfull hw (fun k => ?_) hp
    rw [← hrun fun c hc => hbody c (List.mem_of_mem_take hc)]
    exact he k
  have hret : q.state.step d =
      {q.state with stack := p.state.stack, pc := (p.state.pc + 2).wrap} := by
    rw [State.step_ret (State.not_raised_iff.2 hqr) hqk (by rw [hpop]) hqw, hpop]
  rw [hqc.step_of_code hret hqr (State.status_eq_ready_iff.2 ⟨hqr, hqk⟩)]
  exact ⟨rfl, Word.toNat_wrap_add p.state.pc 2, rfl⟩

/-- What a program calls makes a call of its own, while the host ticks the clock and presses a
key. -/
theorem return_restores_nested :
    let image : List Byte := [0x22, 0x04, 0x00, 0x00, 0x22, 0x08, 0x00, 0xEE, 0x00, 0xEE]
    let body : List Call := [.step, .tick, .pressKey 1 true, .step]
    image.length ≤ maxProgramSize ∧ ∃ m, Machine.create .modern 0 image = .ok m ∧
      m.state.wordAt m.state.pc = Instruction.encode (.call 0x204) ∧
      (m.step.1.run body).1.step.2 = ⟨.ready, none, none⟩ ∧
      (m.step.1.run body).1.step.1.state.pc.toNat = 0x202 ∧
      (m.step.1.run body).1.step.1.state.stack = m.state.stack := by
  intro image body
  have h : image.length ≤ maxProgramSize := by decide
  have heval : ((Machine.create .modern 0 image).toOption.any fun m =>
      let q := (m.step.1.run body).1.state
      decide ((m.state.fault.code = 0 ∧ m.state.waiting = false ∧ m.state.stack.pointer = 0 ∧
          m.state.pc = 0x200 ∧ m.state.wordAt m.state.pc = Instruction.encode (.call 0x204)) ∧
        (∀ k ≤ body.length, 1 ≤ (m.step.1.run (body.take k)).1.state.stack.pointer) ∧
        q.stack.pointer = 1 ∧ q.fault.code = 0 ∧ q.waiting = false ∧
        q.wordAt q.pc = Instruction.encode .ret)) = true := by
    decide +kernel
  obtain ⟨m, hm, hreturn⟩ := return_restores .modern 0 image h
  rw [hm] at heval
  obtain ⟨⟨hr, hk, hp, hpc, hw⟩, he, hqp, hqr, hqk, hqw⟩ := of_decide_eq_true heval
  have hdepth (k : Nat) :
      m.state.stack.pointer + 1 ≤ (m.step.1.run (body.take k)).1.state.stack.pointer := by
    rw [hp, List.take_eq_take_min]
    exact he _ (Nat.min_le_right _ _)
  obtain ⟨hreport, hcounter, hstack⟩ := hreturn [] body 0x204 hr hk (by rw [Machine.run, hp]; decide)
    hw (by decide) hdepth (by rw [Machine.run, hp]; exact hqp) hqr hqk hqw
  have hnext : (m.state.pc.toNat + 2) % 4096 = 0x202 := by
    rw [hpc]
    decide
  exact ⟨h, m, hm, hw, hreport, hcounter.trans hnext, hstack⟩

end Chip8
