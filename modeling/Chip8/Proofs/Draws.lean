import Chip8.Proofs.Executed
import Chip8.Proofs.Restart
import Mathlib.Logic.Function.Iterate

/-!
Random bytes.

A machine draws its random bytes from a key, and `CXNN` is the only instruction that draws. A step
that executes it leaves the next key and a masked byte of the old one (`step_of_draws`), and every
other step, be it an instruction, a fault, a look at the keypad or nothing at all, leaves the key
alone (`random_of_not_draws`). `Machine.draws` are the draws among some calls, as the registers show
them. The main result `draws_follow_seed`: draw number `i` gives the byte of the key of the seed
advanced `i` times, so that what is drawn depends on the seed, and on nothing that a program or its
host does.
-/
namespace Chip8
open Chip8.Random

/-- A draw: where the byte goes, what it is masked with, and what the register then holds. -/
structure Draw where
  register : Nibble
  mask : Byte
  value : Byte
  deriving DecidableEq, Repr

namespace State
variable {d : Dialect} {s : State} {x : Nibble} {n : Byte}

/-- The register and the mask of the byte that the next step draws, if it draws one. -/
def drawing? (s : State) : Option (Nibble × Byte) :=
  match s.executing? with
  | some (.random x n) => some (x, n)
  | _ => none

theorem drawing?_eq_some_iff : s.drawing? = some (x, n) ↔ s.Executes (.random x n) := by
  rw [← executing?_eq_some_iff, drawing?]
  split
  · next h => simp [h]
  · next h =>
    simp only [reduceCtorEq, false_iff]
    exact h x n

/-! ### Steps -/

/-- A draw takes a masked byte of the key, and moves the key on. -/
theorem step_of_draws (h : s.Executes (.random x n)) (d : Dialect) :
    (s.step d).random = s.random.advance ∧ (s.step d).v x = s.random.byte &&& n := by
  rw [h.step_eq (d := d) rfl]
  refine ⟨rfl, ?_⟩
  show (s.fetch.1.setV x _).v x = _
  rw [v_setV, if_pos rfl]
  rfl

/-- A step that draws nothing leaves the key. -/
theorem random_of_not_draws (h : s.drawing? = none) (d : Dialect) :
    (s.step d).random = s.random := by
  rcases kept_or_executes d s (p := .random) trivial with hkept | ⟨i, hi, hmem, -⟩
  · exact hkept
  · obtain ⟨x, n, rfl⟩ := Instruction.writtenBy_of_mem hmem
    rw [drawing?_eq_some_iff.2 hi] at h
    cases h

end State

namespace Machine
variable {d : Dialect} {seed : BitVec 64} {m : Machine}

/-- The draw that a call makes, if it makes one. -/
def draw? (m : Machine) (c : Call) : Option Draw :=
  if c = .step then m.state.drawing?.map fun (x, n) => ⟨x, n, (m.call c).1.state.v x⟩ else none

/-- The draws among some calls. -/
def draws (m : Machine) : List Call → List Draw
  | [] => []
  | c :: rest => (m.draw? c).toList ++ (m.call c).1.draws rest

/-- A call draws a masked byte of the key and moves the key on, or draws nothing and leaves it. -/
theorem Consistent.draw_cases (h : m.Consistent d seed) {c : Call} (hc : c.starts = false) :
    (∃ draw, m.draw? c = some draw ∧ draw.value = m.state.random.byte &&& draw.mask ∧
        (m.call c).1.state.random = m.state.random.advance) ∨
      (m.draw? c = none ∧ (m.call c).1.state.random = m.state.random) := by
  have hstate := h.state_call_of_not_starts hc
  by_cases hstep : c = .step
  · subst hstep
    rw [draw?, if_pos rfl, hstate]
    cases hd : m.state.drawing? with
    | some drawn =>
      obtain ⟨x, n⟩ := drawn
      obtain ⟨hrandom, hv⟩ := State.step_of_draws (State.drawing?_eq_some_iff.1 hd) d
      exact .inl ⟨_, rfl, hv, hrandom⟩
    | none => exact .inr ⟨rfl, State.random_of_not_draws hd d⟩
  · refine .inr ⟨if_neg hstep, ?_⟩
    rw [hstate]
    cases c <;> first | contradiction | rfl

/-- A machine that has halted or waits draws nothing in a step, and neither does one that halts in
it. -/
theorem Consistent.draw?_eq_none (h : m.Consistent d seed)
    (hs : m.status ≠ .ready ∨ m.step.1.status = .halted) : m.draw? .step = none := by
  cases hd : m.state.drawing? with
  | none => rw [draw?, if_pos rfl, hd, Option.map_none]
  | some drawn =>
    obtain ⟨x, n⟩ := drawn
    have hx := State.drawing?_eq_some_iff.1 hd
    have hcode : m.state.fault.code = 0 := State.not_raised_iff.1 hx.running
    rcases hs with hbefore | hafter
    · rw [ne_eq, h.status_eq, State.status_eq_ready_iff] at hbefore
      exact absurd ⟨hcode, hx.awake⟩ hbefore
    · rw [h.step.status_eq, State.status_eq_halted_iff, h.state_step, hx.step_eq (d := d) rfl] at hafter
      exact absurd hcode hafter

/-- After some calls the key has moved on once for each draw, and each draw was made from the key as
it then stood. -/
theorem Consistent.draws_run (h : m.Consistent d seed) {calls : List Call}
    (hc : ∀ c ∈ calls, c.starts = false) :
    (m.run calls).1.state.random = Key.advance^[(m.draws calls).length] m.state.random ∧
      ∀ (i : Nat) (draw : Draw), (m.draws calls)[i]? = some draw →
        draw.value = (Key.advance^[i] m.state.random).byte &&& draw.mask := by
  induction calls generalizing m with
  | nil => exact ⟨rfl, fun i draw hi => by cases hi⟩
  | cons c rest ih =>
    rw [List.forall_mem_cons] at hc
    obtain ⟨hrandom, hvalues⟩ := ih (h.call c) hc.2
    rcases h.draw_cases hc.1 with ⟨first, hfirst, hvalue, hkey⟩ | ⟨hnone, hkey⟩
    · simp only [draws, hfirst, Option.toList_some, List.singleton_append]
      rw [hkey] at hrandom hvalues
      refine ⟨hrandom, fun i draw hi => ?_⟩
      cases i with
      | zero =>
        cases hi
        exact hvalue
      | succ i => exact hvalues i draw hi
    · simp only [draws, hnone, Option.toList_none, List.nil_append]
      rw [hkey] at hrandom hvalues
      exact ⟨hrandom, hvalues⟩

theorem random_of_create {image : List Byte} (h : create d seed image = .ok m) :
    m.state.random = Key.ofSeed seed := by
  obtain ⟨s, hs, rfl⟩ := create_eq_ok_iff.1 h
  obtain ⟨-, rfl⟩ := boot_eq_ok_iff.1 hs
  rfl

end Machine

/-- **What is drawn follows the seed.** Since the last start, draw number `i`, counted from zero,
has left the masked byte of the seed advanced `i` times, whatever else was done. -/
theorem draws_follow_seed (d : Dialect) (seed : BitVec 64) (image : List Byte)
    (h : image.length ≤ maxProgramSize) :
    ∃ m, Machine.create d seed image = .ok m ∧ ∀ earlier hosted : List Call,
      (∀ c, earlier.getLast? = some c → c.starts = true) → (∀ c ∈ hosted, c.starts = false) →
      let key := Key.ofSeed seed
      let p := (m.run earlier).1
      let n := (p.run hosted).1
      n.state.random = Key.advance^[(p.draws hosted).length] key ∧
        (∀ (i : Nat) (draw : Draw), (p.draws hosted)[i]? = some draw →
          draw.value = (Key.advance^[i] key).byte &&& draw.mask) ∧
        (n.status ≠ .ready ∨ n.step.1.status = .halted →
          n.draw? .step = none ∧ n.step.1.state.random = n.state.random) ∧
        ∀ (d' : Dialect) (image' : List Byte) (q : Machine) (calls : List Call),
          Machine.create d' seed image' = .ok q → (∀ c ∈ calls, c.starts = false) →
          ∀ (i : Nat) (a b : Draw), (p.draws hosted)[i]? = some a → (q.draws calls)[i]? = some b →
            ∃ byte, a.value = byte &&& a.mask ∧ b.value = byte &&& b.mask := by
  obtain ⟨m, hm⟩ := Machine.create_of_le d seed h
  refine ⟨m, hm, fun earlier hosted hstarted hhosted => ?_⟩
  intro key p n
  obtain ⟨program, hp⟩ := Machine.exists_create_of_started hm hstarted
  have hcons : p.Consistent d seed := Machine.consistent_create hp
  have hkey : p.state.random = key := Machine.random_of_create hp
  obtain ⟨hrandom, hvalues⟩ := hcons.draws_run hhosted
  rw [hkey] at hrandom hvalues
  refine ⟨hrandom, hvalues, fun hs => ?_, fun d' image' q calls hq hcalls i a b ha hb => ?_⟩
  · have hn : n.Consistent d seed := hcons.run hosted
    have hnone := hn.draw?_eq_none hs
    rcases hn.draw_cases (c := .step) rfl with ⟨draw, hdraw, -⟩ | ⟨-, hsame⟩
    · rw [hnone] at hdraw
      cases hdraw
    · exact ⟨hnone, hsame⟩
  · obtain ⟨-, hothers⟩ := (Machine.consistent_create hq).draws_run hcalls
    rw [Machine.random_of_create hq] at hothers
    exact ⟨_, hvalues i a ha, hothers i b hb⟩

/-- A program draws a byte, draws with an empty mask into the flag register, waits for a key, draws
again and halts. Another one of the same seed, in another dialect, draws the same three bytes with
masks of its own. -/
theorem draws_follow_seed_masked :
    let image : List Byte := [0xC0, 0xFF, 0xCF, 0x00, 0xF0, 0x0A, 0xC1, 0xF0, 0xFF, 0xFF]
    let earlier : List Call := [.step, .reset]
    let hosted : List Call := [.step, .step, .tick, .step, .step, .pressKey 3 true, .step, .takeDrawn,
      .step, .step, .step]
    let image' : List Byte := [0x00, 0xE0, 0xC3, 0x0F, 0xC4, 0xFF, 0xC5, 0x3C]
    let calls : List Call := [.step, .step, .step, .step]
    image.length ≤ maxProgramSize ∧ ∃ m q, Machine.create .modern 7 image = .ok m ∧
      Machine.create .legacy 7 image' = .ok q ∧
      let p := (m.run earlier).1
      let n := (p.run hosted).1
      p.draws hosted = [⟨0x0, 0xFF, 0xD4⟩, ⟨0xF, 0x00, 0x00⟩, ⟨0x1, 0xF0, 0x50⟩] ∧
        q.draws calls = [⟨0x3, 0x0F, 0x04⟩, ⟨0x4, 0xFF, 0xD9⟩, ⟨0x5, 0x3C, 0x18⟩] ∧
        n.status = .halted ∧ n.state.random = Key.advance^[3] (Key.ofSeed 7) ∧
        n.step.1.state.random = n.state.random ∧
        0x50 = (Key.advance^[2] (Key.ofSeed 7)).byte &&& 0xF0 ∧
        ∃ byte : Byte, 0x50 = byte &&& 0xF0 ∧ 0x18 = byte &&& 0x3C := by
  intro image earlier hosted image' calls
  have h : image.length ≤ maxProgramSize := by decide
  have hstarted : ∀ c, earlier.getLast? = some c → c.starts = true := by
    intro c hc
    cases hc
    rfl
  have hhosted : ∀ c ∈ hosted, c.starts = false := by decide
  have hcalls : ∀ c ∈ calls, c.starts = false := by decide
  have heval : ((Machine.create .modern 7 image).toOption.any fun m =>
      let p := (m.run earlier).1
      decide (p.draws hosted = [⟨0x0, 0xFF, 0xD4⟩, ⟨0xF, 0x00, 0x00⟩, ⟨0x1, 0xF0, 0x50⟩] ∧
        (p.run hosted).1.status = .halted)) = true := by
    decide +kernel
  have heval' : ((Machine.create .legacy 7 image').toOption.any fun q =>
      decide (q.draws calls = [⟨0x3, 0x0F, 0x04⟩, ⟨0x4, 0xFF, 0xD9⟩, ⟨0x5, 0x3C, 0x18⟩])) = true := by
    decide +kernel
  obtain ⟨m, hm, hlaw⟩ := draws_follow_seed .modern 7 image h
  obtain ⟨q, hq⟩ := Machine.create_of_le .legacy 7 (show image'.length ≤ maxProgramSize by decide)
  rw [hm] at heval
  rw [hq] at heval'
  obtain ⟨hdraws, hhalted⟩ := of_decide_eq_true heval
  have hdraws' := of_decide_eq_true heval'
  obtain ⟨hrandom, hvalues, hstill, hsame⟩ := hlaw earlier hosted hstarted hhosted
  refine ⟨h, m, q, hm, hq, hdraws, hdraws', hhalted, ?_, (hstill (.inl ?_)).2, ?_, ?_⟩
  · rw [hrandom, hdraws]
    rfl
  · rw [hhalted]
    decide
  · exact hvalues 2 ⟨0x1, 0xF0, 0x50⟩ (by rw [hdraws]; rfl)
  · exact hsame .legacy image' q calls hq hcalls 2 ⟨0x1, 0xF0, 0x50⟩ ⟨0x5, 0x3C, 0x18⟩
      (by rw [hdraws]; rfl) (by rw [hdraws']; rfl)

end Chip8
