import Chip8.Proofs.Reserved
import Chip8.Proofs.Session

/-!
Starting again.

A host may start a program at any moment: the one that is loaded, by a reset, or another one that
fits. `Call.starts` says which calls do, and `call_of_starts` that such a call leaves nothing of
what was before: the machine is one that has just been created. A program that does not fit leaves
all as it was. The main result `reset_fresh` is that after every list of calls a reset gives the
machine that is created from the program loaded last, down to each byte of its memory, and that from
then on the two cannot be told apart.
-/
namespace Chip8

/-- The program that a call loads. One that does not fit is not loaded. -/
def Call.loaded? : Call → Option (List Byte)
  | .load image => if image.length ≤ maxProgramSize then some image else none
  | _ => none

/-- A call starts a program. -/
def Call.starts : Call → Bool
  | .reset => true
  | c => c.loaded?.isSome

/-- The program loaded last, if it was `image` before the calls. -/
def loadedLast (image : List Byte) (calls : List Call) : List Byte :=
  (calls.filterMap Call.loaded?).getLastD image

theorem length_of_loaded? {c : Call} {image : List Byte} (h : c.loaded? = some image) :
    image.length ≤ maxProgramSize := by
  cases c with
  | load loaded =>
    simp only [Call.loaded?] at h
    split at h
    · next hfits =>
      cases h
      exact hfits
    · cases h
  | _ => cases h

theorem loadedLast_cons (image : List Byte) (c : Call) (calls : List Call) :
    loadedLast image (c :: calls) = loadedLast (c.loaded?.getD image) calls := by
  rw [loadedLast, loadedLast, List.filterMap_cons]
  cases c.loaded? with
  | none => rfl
  | some loaded => exact List.getLastD_cons

/-! ### A program in memory -/

namespace Memory

theorem toList_load (m : Memory) {start : Nat} {bytes : List Byte}
    (h : start + bytes.length ≤ 4096) :
    (m.load start bytes).toList =
      m.toList.take start ++ bytes ++ m.toList.drop (start + bytes.length) := by
  have hm : m.toList.length = 4096 := m.length_toList
  rw [load]
  apply List.take_of_length_le
  simp only [List.length_append, List.length_take, List.length_drop, hm]
  omega

theorem toList_fresh : fresh.toList = glyphs ++ List.replicate (4096 - glyphs.length) 0 := by
  have hzero : zero.toList = List.replicate 4096 0 := Vector.toList_replicate
  rw [fresh, toList_load zero (by decide), hzero, glyphStart, List.take_zero, List.nil_append,
    List.drop_replicate, Nat.zero_add]

/-- The glyphs, zeros up to the program, the program, and zeros after it. -/
theorem toList_fresh_load {image : List Byte} (h : image.length ≤ maxProgramSize) :
    (fresh.load programStart image).toList =
      glyphs ++ List.replicate (programStart - glyphs.length) 0 ++ image ++
        List.replicate (maxProgramSize - image.length) 0 := by
  have hglyphs : glyphs.length = 80 := rfl
  have hstart : programStart = 512 := rfl
  have hlimit : maxProgramSize = 3584 := rfl
  have hend : programStart + image.length ≤ 4096 := by omega
  have hbefore : fresh.toList.take programStart =
      glyphs ++ List.replicate (programStart - glyphs.length) 0 := by
    rw [toList_fresh, List.take_append, List.take_of_length_le (by omega), List.take_replicate,
      Nat.min_eq_left (by omega)]
  have hafter : fresh.toList.drop (programStart + image.length) =
      List.replicate (maxProgramSize - image.length) 0 := by
    rw [toList_fresh, List.drop_append, List.drop_of_length_le (by omega), List.drop_replicate,
      List.nil_append]
    congr 1
    omega
  rw [toList_load fresh hend, hbefore, hafter]

end Memory

namespace Machine
variable {d : Dialect} {seed : BitVec 64} {m n : Machine} {c : Call} {image : List Byte}

/-! ### One call -/

theorem image_create (h : create d seed image = .ok n) : n.image = image := by
  obtain ⟨s, -, rfl⟩ := create_eq_ok_iff.1 h
  rfl

theorem length_image_create (h : create d seed image = .ok n) : n.image.length ≤ maxProgramSize := by
  obtain ⟨s, hs, rfl⟩ := create_eq_ok_iff.1 h
  exact (boot_eq_ok_iff.1 hs).1

theorem call_load_of_le (m : Machine) (h : image.length ≤ maxProgramSize) :
    ∃ n, create m.dialect m.seed image = .ok n ∧ m.call (.load image) = (n, .done) := by
  obtain ⟨n, hn⟩ := create_of_le m.dialect m.seed h
  refine ⟨n, hn, ?_⟩
  rw [call, load, hn]
  rfl

/-- A program that does not fit is refused, and the machine stays as it was. -/
theorem call_load_of_lt (m : Machine) (h : maxProgramSize < image.length) :
    m.call (.load image) = (m, .failed (.imageTooLarge image.length maxProgramSize)) := by
  have hload : m.load image = .error (.imageTooLarge image.length maxProgramSize) := by
    rw [load, create, boot, State.load, State.roomFor, if_neg (by omega)]
    rfl
  rw [call, hload]
  rfl

/-- A call that starts a program makes a new machine. -/
theorem call_of_starts (hm : m.image.length ≤ maxProgramSize) (hc : c.starts = true) :
    ∃ n, create m.dialect m.seed (c.loaded?.getD m.image) = .ok n ∧ m.call c = (n, .done) := by
  cases c with
  | load image =>
    obtain ⟨loaded, hloaded⟩ := Option.isSome_iff_exists.1 hc
    have hfits := length_of_loaded? hloaded
    simp only [Call.loaded?] at hloaded
    split at hloaded
    · cases hloaded
      rw [Call.loaded?, if_pos hfits]
      exact m.call_load_of_le hfits
    · cases hloaded
  | reset => exact m.call_load_of_le hm
  | _ => cases hc

/-- A call that starts no program acts on the state alone. -/
theorem Consistent.state_call_of_not_starts (h : m.Consistent d seed) (hc : c.starts = false) :
    (m.call c).1.state = m.state.after d c := by
  cases c with
  | load image =>
    have hlarge : maxProgramSize < image.length := by
      simpa [Call.starts, Call.loaded?] using hc
    rw [m.call_load_of_lt hlarge]
    rfl
  | reset => cases hc
  | _ => exact h.state_call rfl

theorem image_call (m : Machine) (c : Call) : (m.call c).1.image = c.loaded?.getD m.image := by
  cases c with
  | step => exact image_step m
  | tick => rfl
  | setKeys keys => exact congrArg Session.image (session_settle_withKeypad m _ _)
  | pressKey key down => exact congrArg Session.image (session_settle_withKeypad m _ _)
  | takeDrawn => rfl
  | load image =>
    by_cases hfits : image.length ≤ maxProgramSize
    · obtain ⟨n, hn, hcall⟩ := m.call_load_of_le hfits
      rw [hcall, image_create hn, Call.loaded?, if_pos hfits]
      rfl
    · rw [m.call_load_of_lt (by omega), Call.loaded?, if_neg hfits]
      rfl
  | reset =>
    show (m.settle .failed (m.load m.image)).1.image = m.image
    cases hload : m.load m.image with
    | error e => rfl
    | ok n => exact image_create hload

theorem length_image_call (h : m.image.length ≤ maxProgramSize) (c : Call) :
    (m.call c).1.image.length ≤ maxProgramSize := by
  rw [image_call]
  cases hloaded : c.loaded? with
  | none => exact h
  | some loaded => exact length_of_loaded? hloaded

/-! ### Lists of calls -/

theorem image_run (m : Machine) (calls : List Call) :
    (m.run calls).1.image = loadedLast m.image calls := by
  induction calls generalizing m with
  | nil => rfl
  | cons c rest ih =>
    rw [loadedLast_cons, ← image_call]
    exact ih (m.call c).1

theorem length_image_run (h : m.image.length ≤ maxProgramSize) (calls : List Call) :
    (m.run calls).1.image.length ≤ maxProgramSize := by
  induction calls generalizing m with
  | nil => exact h
  | cons c rest ih => exact ih (length_image_call h c)

/-- After a call that starts a program, and before all calls, a machine is a new one. -/
theorem exists_create_of_started (h : create d seed image = .ok m) {calls : List Call}
    (hc : ∀ c, calls.getLast? = some c → c.starts = true) :
    ∃ program, create d seed program = .ok (m.run calls).1 := by
  rcases List.eq_nil_or_concat calls with rfl | ⟨before, c, rfl⟩
  · exact ⟨image, h⟩
  have hm : (m.run before).1.Consistent d seed := (consistent_create h).run before
  have hfits := length_image_run (length_image_create h) before
  rw [List.concat_eq_append] at hc ⊢
  obtain ⟨n, hn, hcall⟩ := call_of_starts hfits (hc c List.getLast?_concat)
  have hlast : (m.run (before ++ [c])).1 = n := by
    rw [run_append]
    exact congrArg Prod.fst hcall
  rw [hm.dialect_eq, hm.seed_eq] at hn
  rw [hlast]
  exact ⟨_, hn⟩

end Machine

/-- **A reset is a fresh start.** It gives the machine that is created from the program loaded last,
and whatever is called later is answered alike. A program that does not fit changes nothing. -/
theorem reset_fresh (d : Dialect) (seed : BitVec 64) (image : List Byte)
    (h : image.length ≤ maxProgramSize) :
    ∃ m, Machine.create d seed image = .ok m ∧ ∀ calls : List Call,
      let n := (m.run calls).1
      let program := loadedLast image calls
      (∃ fresh, Machine.create d seed program = .ok fresh ∧ n.call .reset = (fresh, .done) ∧
        fresh.state.memory.toList =
          glyphs ++ List.replicate (programStart - glyphs.length) 0 ++ program ++
            List.replicate (maxProgramSize - program.length) 0 ∧
        ∀ later : List Call, m.run (calls ++ .reset :: later) =
          ((fresh.run later).1, (m.run calls).2 ++ .done :: (fresh.run later).2)) ∧
      ∀ big : List Byte, maxProgramSize < big.length →
        n.call (.load big) = (n, .failed (.imageTooLarge big.length 3584)) := by
  obtain ⟨m, hm⟩ := Machine.create_of_le d seed h
  refine ⟨m, hm, fun calls => ?_⟩
  intro n program
  have hn : n.Consistent d seed := (Machine.consistent_create hm).run calls
  have hprogram : n.image = program := by
    have hrun := m.image_run calls
    rw [Machine.image_create hm] at hrun
    exact hrun
  have hfits : n.image.length ≤ maxProgramSize :=
    Machine.length_image_run (Machine.length_image_create hm) calls
  refine ⟨?_, fun big hbig => n.call_load_of_lt hbig⟩
  obtain ⟨fresh, hfresh, hreset⟩ := Machine.call_of_starts (c := .reset) hfits rfl
  have hcreate : Machine.create d seed program = .ok fresh := by
    rw [← hn.dialect_eq, ← hn.seed_eq, ← hprogram]
    exact hfresh
  refine ⟨fresh, hcreate, hreset, ?_, fun later => ?_⟩
  · obtain ⟨s, hs, rfl⟩ := Machine.create_eq_ok_iff.1 hcreate
    obtain ⟨hlength, rfl⟩ := Machine.boot_eq_ok_iff.1 hs
    exact Memory.toList_fresh_load hlength
  · have hlater : n.run (.reset :: later) = ((fresh.run later).1, .done :: (fresh.run later).2) := by
      rw [Machine.run, hreset]
    rw [Machine.run_append, hlater]

/-- A program draws and halts, another one writes over itself, and a third does not fit. After a
reset the second one is there as it was loaded. -/
theorem reset_fresh_rewritten :
    let image : List Byte := [0xD0, 0x05, 0xFF, 0xFF]
    let second : List Byte := [0xA2, 0x00, 0xF0, 0x55, 0x12, 0x00]
    let calls : List Call := [.step, .step, .load second, .pressKey 1 true, .step, .step,
      .load (List.replicate 3585 0), .step, .tick]
    image.length ≤ maxProgramSize ∧ ∃ m, Machine.create .modern 7 image = .ok m ∧
      (m.run calls).1.state.memory.read 0x200 = 0 ∧
      ∃ fresh, Machine.create .modern 7 second = .ok fresh ∧
        (m.run (calls ++ [.reset, .step])).1 = fresh.step.1 := by
  intro image second calls
  have h : image.length ≤ maxProgramSize := by decide
  have heval : ((Machine.create .modern 7 image).toOption.any fun m =>
      decide ((m.run calls).1.state.memory.read 0x200 = 0)) = true := by
    decide +kernel
  obtain ⟨m, hm, hreset⟩ := reset_fresh .modern 7 image h
  rw [hm] at heval
  simp only [Except.toOption, Option.any_some, decide_eq_true_eq] at heval
  obtain ⟨⟨fresh, hfresh, -, -, hlater⟩, -⟩ := hreset calls
  have hsecond : loadedLast image calls = second := by decide +kernel
  rw [hsecond] at hfresh
  refine ⟨h, m, hm, heval, fresh, hfresh, ?_⟩
  rw [hlater [.step]]
  rfl

end Chip8
