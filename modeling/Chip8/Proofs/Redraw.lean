import Chip8.Proofs.Executed
import Chip8.Proofs.Restart

/-!
Pictures that are shown late.

A host shows the screen again when it is told that the screen was drawn on. The instructions that
write the screen say so, so a state that was not drawn on still shows what the host has seen
(`State.Shows`), whatever it executed, also where an instruction failed. A program at its start
shows the dark screen and says nothing, though the host may have seen another one before. The main
result `undrawn_screen` is that this is the only way in which a picture is missed.
-/
namespace Chip8

namespace State
variable {d : Dialect} {s : State} {seen : Screen}

/-- A state shows a screen, unless it was drawn on. -/
def Shows (seen : Screen) (s : State) : Prop := s.drawn = false → s.screen = seen

/-- An instruction that writes the screen says so. -/
theorem drawn_of_perform {t : State} {i : Instruction} (h : s.perform d i = .ok t)
    (hi : .screen ∈ i.footprint d) : t.drawn = true := by
  rcases Instruction.writtenBy_of_mem hi with rfl | ⟨x, y, n, rfl⟩ <;> cases h <;> rfl

theorem Shows.step (h : s.Shows seen) : (s.step d).Shows seen := by
  intro hn
  rcases kept_or_executes d s (p := .screen) trivial with ⟨hscreen, hdrawn⟩ | ⟨i, -, hi, ht⟩
  · rw [hdrawn] at hn
    rw [hscreen, h hn]
  · rw [drawn_of_perform ht hi] at hn
    cases hn

theorem Shows.after (h : s.Shows seen) {c : Call} (hc : c ≠ .takeDrawn) :
    (s.after d c).Shows seen := by
  cases c with
  | step => exact h.step
  | takeDrawn => exact absurd rfl hc
  | _ => exact h

end State

namespace Machine
variable {d : Dialect} {seed : BitVec 64} {m : Machine} {seen : Screen}

theorem shows_of_create {image : List Byte} (h : create d seed image = .ok m) :
    m.state.Shows Grid.dark := by
  obtain ⟨s, hs, rfl⟩ := create_eq_ok_iff.1 h
  obtain ⟨-, rfl⟩ := boot_eq_ok_iff.1 hs
  intro _
  rfl

theorem Consistent.shows_call (h : m.Consistent d seed) (hfits : m.image.length ≤ maxProgramSize)
    (hs : m.state.Shows seen) {c : Call} (hc : c ≠ .takeDrawn) :
    (m.call c).1.state.Shows (if c.starts then Grid.dark else seen) := by
  split
  · next hstarts =>
    obtain ⟨n, hn, hcall⟩ := call_of_starts hfits hstarts
    rw [hcall]
    exact shows_of_create hn
  · next hstarts =>
    rw [h.state_call_of_not_starts (Bool.eq_false_iff.2 hstarts)]
    exact hs.after hc

theorem Consistent.shows_run (h : m.Consistent d seed) (hfits : m.image.length ≤ maxProgramSize)
    (hs : m.state.Shows seen) {calls : List Call} (hc : .takeDrawn ∉ calls) :
    (m.run calls).1.state.Shows (if calls.any Call.starts then Grid.dark else seen) := by
  induction calls generalizing m seen with
  | nil => exact hs
  | cons c rest ih =>
    obtain ⟨hfirst, hrest⟩ := List.ne_and_not_mem_of_not_mem_cons hc
    have hnext := ih (h.call c) (length_image_call hfits c)
      (h.shows_call hfits hs (Ne.symm hfirst)) hrest
    -- the last program started is the one that counts
    cases hany : rest.any Call.starts with
    | true =>
      rw [hany, if_pos rfl] at hnext
      rw [List.any_cons, hany, Bool.or_true, if_pos rfl]
      exact hnext
    | false =>
      rw [hany, if_neg Bool.false_ne_true] at hnext
      rw [List.any_cons, hany, Bool.or_false]
      exact hnext

end Machine

/-- **What is not reported is not drawn, but for programs that start.** The screen is as at the last
look, exactly if no program was started since or it was dark then. -/
theorem undrawn_screen (d : Dialect) (seed : BitVec 64) (image : List Byte)
    (h : image.length ≤ maxProgramSize) :
    ∃ m, Machine.create d seed image = .ok m ∧ ∀ calls since : List Call, .takeDrawn ∉ since →
      let p := (m.run calls).1
      let n := (p.run since).1
      (n.call .takeDrawn).2 = .drawn false →
        (n.state.screen = p.state.screen ↔
          ((∀ c ∈ since, c.starts = false) ∨ p.state.screen = Grid.dark)) := by
  obtain ⟨m, hm⟩ := Machine.create_of_le d seed h
  refine ⟨m, hm, fun calls since hsince => ?_⟩
  intro p n hdrawn
  have hp : p.Consistent d seed := (Machine.consistent_create hm).run calls
  have hfits : p.image.length ≤ maxProgramSize :=
    Machine.length_image_run (Machine.length_image_create hm) calls
  have hseen : p.state.Shows p.state.screen := fun _ => rfl
  have hshows := hp.shows_run hfits hseen hsince
  have hscreen : n.state.screen =
      if since.any Call.starts then Grid.dark else p.state.screen :=
    hshows (Reply.drawn.inj hdrawn)
  have hnone : since.any Call.starts = false ↔ ∀ c ∈ since, c.starts = false := by
    simp only [List.any_eq_false, Bool.not_eq_true]
  rw [hscreen, ← hnone]
  cases since.any Call.starts with
  | true =>
    rw [if_pos rfl, Bool.true_eq_false, false_or]
    exact eq_comm
  | false =>
    rw [if_neg Bool.false_ne_true]
    exact ⟨fun _ => .inl rfl, fun _ => rfl⟩

/-- A sprite is drawn and looked at. The reset clears the screen, and the next look tells
nothing. -/
theorem reset_not_reported :
    let image : List Byte := [0xD0, 0x05]
    ∃ m, Machine.create .modern 0 image = .ok m ∧
      let p := (m.run [.step, .takeDrawn]).1
      let n := (p.run [.reset]).1
      (m.run [.step, .takeDrawn, .reset, .takeDrawn]).2 =
        [.stepped ⟨.ready, none, none⟩, .drawn true, .done, .drawn false] ∧
      n.state.screen ≠ p.state.screen := by
  intro image
  have h : image.length ≤ maxProgramSize := by decide
  obtain ⟨m, hm⟩ := Machine.create_of_le .modern 0 h
  have heval : ((Machine.create .modern 0 image).toOption.any fun m =>
      decide ((m.run [.step, .takeDrawn, .reset, .takeDrawn]).2 =
          [.stepped ⟨.ready, none, none⟩, .drawn true, .done, .drawn false] ∧
        ((m.run [.step, .takeDrawn]).1.run [.reset]).1.state.screen ≠
          (m.run [.step, .takeDrawn]).1.state.screen)) = true := by
    decide +kernel
  rw [hm] at heval
  exact ⟨m, hm, of_decide_eq_true heval⟩

/-- A sprite is drawn and looked at. Then the clock ticks, a key goes down, a program does not fit,
and the machine steps in place. -/
theorem undrawn_screen_kept :
    let image : List Byte := [0xD0, 0x05, 0x12, 0x02]
    let since : List Call := [.tick, .step, .pressKey 3 true, .load (List.replicate 3585 0), .step]
    image.length ≤ maxProgramSize ∧ .takeDrawn ∉ since ∧
      ∃ m, Machine.create .modern 0 image = .ok m ∧
        let p := (m.run [.step, .takeDrawn]).1
        let n := (p.run since).1
        (n.call .takeDrawn).2 = .drawn false ∧ p.state.screen ≠ Grid.dark ∧
          n.state.screen = p.state.screen := by
  intro image since
  have h : image.length ≤ maxProgramSize := by decide
  have hsince : .takeDrawn ∉ since := by decide +kernel
  have hnone : ∀ c ∈ since, c.starts = false := by decide +kernel
  have heval : ((Machine.create .modern 0 image).toOption.any fun m =>
      let p := (m.run [.step, .takeDrawn]).1
      decide (((p.run since).1.call .takeDrawn).2 = .drawn false ∧
        p.state.screen ≠ Grid.dark)) = true := by
    decide +kernel
  obtain ⟨m, hm, hundrawn⟩ := undrawn_screen .modern 0 image h
  rw [hm] at heval
  simp only [Except.toOption, Option.any_some, decide_eq_true_eq] at heval
  obtain ⟨hdrawn, hlit⟩ := heval
  exact ⟨h, hsince, m, hm, hdrawn, hlit, (hundrawn _ since hsince hdrawn).2 (.inl hnone)⟩

end Chip8
