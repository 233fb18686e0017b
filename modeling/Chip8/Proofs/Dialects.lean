import Chip8.Proofs.Executed
import Chip8.Proofs.Reach

/-!
What a dialect decides.

A dialect fixes six points, and few instructions turn on one of them; none turns on two
(`Instruction.point?`). `Point.governs` says the same of words, by their fields. Two dialects agree
on a word if no point on which they differ governs it (`Dialect.AgreeOn`). A word on which they
agree comes to the same in both (`outcome_congr`), a step that fetches no other word does too
(`step_congr`), and so the main result `dialects_agree`: two machines that differ in their dialects,
and fetch no word on which these disagree, reply alike to every call and are in the same state after
it.
-/
namespace Chip8

/-- The points that a dialect fixes. -/
inductive Point where
  | shift
  | move
  | jump
  | logic
  | sprites
  | machineCode
  deriving DecidableEq, Repr

/-- Whether a point holds in a dialect. -/
def Dialect.holds (d : Dialect) : Point → Bool
  | .shift => d.shiftTakesVY
  | .move => d.moveAdvancesIndex
  | .jump => d.jumpTakesVX
  | .logic => d.logicClearsFlag
  | .sprites => d.spritesWrap
  | .machineCode => d.skipsMachineCode

/-- Whether the meaning of a word turns on a point. -/
def Point.governs (w : Word) : Point → Bool
  | .shift => w.family = 0x8 && (w.n = 0x6 || w.n = 0xE)
  | .move => w.family = 0xF && (w.nn = 0x55 || w.nn = 0x65)
  | .jump => w.family = 0xB
  | .logic => w.family = 0x8 && (w.n = 0x1 || w.n = 0x2 || w.n = 0x3)
  | .sprites => w.family = 0xD
  | .machineCode => w.family = 0x0 && w ≠ 0x00E0 && w ≠ 0x00EE

/-- No point on which two dialects differ governs a word. -/
def Dialect.AgreeOn (d e : Dialect) (w : Word) : Prop :=
  ∀ p : Point, d.holds p ≠ e.holds p → p.governs w = false

/-- The point that an instruction turns on, if it turns on one. -/
def Instruction.point? : Instruction → Option Point
  | .machineCode _ => some .machineCode
  | .alu op _ _ => if op.isShift then some .shift else if op.isLogic then some .logic else none
  | .jumpOffset _ => some .jump
  | .draw _ _ _ => some .sprites
  | .store _ | .restore _ => some .move
  | _ => none

/-- A word is governed by the point that its instruction turns on. -/
theorem governs_of_decode {w : Word} {i : Instruction} {p : Point}
    (hi : Instruction.decode w = some i) (hp : i.point? = some p) : p.governs w = true := by
  obtain ⟨rfl, hshadow⟩ := Instruction.decode_eq_some_iff.1 hi
  cases i with
  | machineCode a =>
    cases hp
    have hclear : Instruction.encode (.machineCode a) ≠ 0x00E0 := by
      intro hw
      rw [hw] at hi
      cases hi
    have hret : Instruction.encode (.machineCode a) ≠ 0x00EE := by
      intro hw
      rw [hw] at hi
      cases hi
    have hfamily : (Instruction.encode (.machineCode a)).family = 0x0 :=
      Instruction.family_withAddress 0x0 a
    simpa [Point.governs, hfamily] using And.intro hclear hret
  | jumpOffset a =>
    cases hp
    simp only [Point.governs, Instruction.encode, Instruction.family_withAddress]
    decide
  | draw x y n =>
    cases hp
    simp only [Point.governs, Instruction.encode, Instruction.fields_withPair]
    decide
  | store x | restore x =>
    cases hp
    simp only [Point.governs, Instruction.encode, Instruction.fields_withByte]
    decide
  | alu op x y =>
    cases op <;> cases hp <;>
      simp only [Point.governs, Instruction.encode, Instruction.fields_withPair] <;> decide
  | _ => cases hp

namespace State
variable {d e : Dialect} {s : State} {i : Instruction} {w : Word}

/-! ### Instructions and steps -/

theorem operate_congr {op : Alu} (hshift : op.isShift = true → d.shiftTakesVY = e.shiftTakesVY)
    (hlogic : op.isLogic = true → d.logicClearsFlag = e.logicClearsFlag) (x y : Nibble) :
    s.operate d op x y = s.operate e op x y := by
  have hoperand : (op.isShift && d.shiftTakesVY) = (op.isShift && e.shiftTakesVY) := by
    cases h : op.isShift with
    | true => rw [hshift h]
    | false => rfl
  have hflag : (op.isLogic && d.logicClearsFlag) = (op.isLogic && e.logicClearsFlag) := by
    cases h : op.isLogic with
    | true => rw [hlogic h]
    | false => rfl
  simp only [operate, hoperand, hflag]

theorem afterMove_congr (h : d.moveAdvancesIndex = e.moveAdvancesIndex) (s : State) (x : Nibble) :
    s.afterMove d x = s.afterMove e x := by
  simp only [afterMove, h]

/-- An instruction does the same in dialects that agree on the point that it turns on. -/
theorem perform_congr (h : ∀ p, i.point? = some p → d.holds p = e.holds p) :
    s.perform d i = s.perform e i := by
  cases i with
  | machineCode a =>
    have hskips : d.skipsMachineCode = e.skipsMachineCode := h .machineCode rfl
    simp only [perform, hskips]
  | alu op x y =>
    simp only [perform, attempt]
    rw [operate_congr]
    · intro hs
      exact h .shift (by rw [Instruction.point?, if_pos hs])
    · intro hl
      have hs : op.isShift = false := by cases op <;> first | contradiction | rfl
      exact h .logic (by rw [Instruction.point?, if_neg (by rw [hs]; decide), if_pos hl])
  | jumpOffset a =>
    have hjump : d.jumpTakesVX = e.jumpTakesVX := h .jump rfl
    simp only [perform, attempt, hjump]
  | draw x y n =>
    have hsprites : d.spritesWrap = e.spritesWrap := h .sprites rfl
    simp only [perform, attempt, draw, hsprites]
  | store x =>
    have hmove : d.moveAdvancesIndex = e.moveAdvancesIndex := h .move rfl
    simp only [perform, afterMove_congr hmove]
  | restore x =>
    have hmove : d.moveAdvancesIndex = e.moveAdvancesIndex := h .move rfl
    simp only [perform, attempt, afterMove_congr hmove]
  | _ => rfl

theorem outcome_congr (h : d.AgreeOn e w) : s.outcome d w = s.outcome e w := by
  cases hi : Instruction.decode w with
  | none => rw [outcome_of_data hi, outcome_of_data hi]
  | some i =>
    rw [outcome_of_decode hi, outcome_of_decode hi]
    apply perform_congr
    intro p hp
    apply Decidable.byContradiction
    intro hne
    have hgoverns := governs_of_decode hi hp
    rw [h p hne] at hgoverns
    cases hgoverns

/-- A step does the same in dialects that agree on the word that it fetches, if it fetches one. -/
theorem step_congr (h : ∀ w, s.fetched? = some w → d.AgreeOn e w) : s.step d = s.step e := by
  cases hr : s.fault.raised with
  | true => rw [step_of_raised hr, step_of_raised hr]
  | false =>
    cases hk : s.waiting with
    | true => rw [step_of_waiting hr hk, step_of_waiting hr hk]
    | false =>
      have hw : d.AgreeOn e (s.wordAt s.pc) := h _ (fetched?_eq_some_iff.2 ⟨hr, hk, rfl⟩)
      have ho : s.fetch.1.outcome d (s.wordAt s.pc) = s.fetch.1.outcome e (s.wordAt s.pc) :=
        outcome_congr hw
      cases hs : s.fetch.1.outcome e (s.wordAt s.pc) with
      | error f => rw [step_of_fault hr hk hs, step_of_fault hr hk (ho.trans hs)]
      | ok t => rw [step_of_outcome hr hk hs, step_of_outcome hr hk (ho.trans hs)]

end State

namespace Machine
variable {d e : Dialect} {seed : BitVec 64} {m : Machine} {calls : List Call}

/-- The words that the steps among some calls fetch. -/
def fetched (m : Machine) : List Call → List Word
  | [] => []
  | c :: rest => (if c = .step then m.state.fetched?.toList else []) ++ (m.call c).1.fetched rest

/-- The machine in another dialect. -/
def withDialect (m : Machine) (e : Dialect) : Machine := {m with dialect := e}

theorem fetched_append (m : Machine) (a b : List Call) :
    m.fetched (a ++ b) = m.fetched a ++ (m.run a).1.fetched b := by
  induction a generalizing m with
  | nil => rfl
  | cons c rest ih =>
    simp only [List.cons_append, fetched, ih, List.append_assoc]
    rfl

/-! ### One call -/

theorem create_withDialect (d e : Dialect) (seed : BitVec 64) (image : List Byte) :
    (create d seed image).map (·.withDialect e) = create e seed image := by
  simp only [create]
  cases boot seed image <;> rfl

theorem step_withDialect (h : m.state.step m.dialect = m.state.step e) :
    (m.withDialect e).step = (m.step.1.withDialect e, m.step.2) := by
  simp only [step, withDialect, h]
  split
  · rfl
  · split <;> rfl

theorem settle_withDialect {ε : Type} (m : Machine) (e : Dialect) (failure : ε → Reply)
    (r : Except ε Machine) :
    (m.withDialect e).settle failure (r.map (·.withDialect e)) =
      ((m.settle failure r).1.withDialect e, (m.settle failure r).2) := by
  cases r <;> rfl

theorem settle_map_withDialect (m : Machine) (e : Dialect) (failure : Refusal → Reply)
    (keys : Except Refusal Keypad) :
    (m.withDialect e).settle failure (keys.map (m.withDialect e).withKeypad) =
      ((m.settle failure (keys.map m.withKeypad)).1.withDialect e,
        (m.settle failure (keys.map m.withKeypad)).2) := by
  cases keys <;> rfl

/-- A call does the same to a machine in another dialect, if a step does. -/
theorem call_withDialect {c : Call}
    (h : c = .step → m.state.step m.dialect = m.state.step e) :
    (m.withDialect e).call c = ((m.call c).1.withDialect e, (m.call c).2) := by
  cases c with
  | step =>
    simp only [call]
    rw [step_withDialect (h rfl)]
  | tick | takeDrawn => rfl
  | setKeys keys => exact m.settle_map_withDialect e _ _
  | pressKey key down => exact m.settle_map_withDialect e _ _
  | load image =>
    rw [call, call, ← settle_withDialect, load, load, create_withDialect]
    rfl
  | reset =>
    rw [call, call, ← settle_withDialect, reset, reset, load, load, create_withDialect]
    rfl

/-! ### Lists of calls -/

theorem Consistent.run_withDialect (h : m.Consistent d seed)
    (hw : ∀ w ∈ m.fetched calls, d.AgreeOn e w) :
    (m.withDialect e).run calls = ((m.run calls).1.withDialect e, (m.run calls).2) := by
  induction calls generalizing m with
  | nil => rfl
  | cons c rest ih =>
    rw [fetched, List.forall_mem_append] at hw
    have hcall : (m.withDialect e).call c = ((m.call c).1.withDialect e, (m.call c).2) := by
      apply call_withDialect
      rintro rfl
      rw [h.dialect_eq]
      apply State.step_congr
      intro w hfetched
      exact hw.1 w (by rw [if_pos rfl, hfetched]; exact List.mem_singleton.2 rfl)
    simp only [Machine.run, hcall, ih (h.call c) hw.2]

end Machine

/-- **Dialects differ in what they decide, and in nothing else.** Two machines reply alike as long
as no step of the first fetches a word governed by a point on which their dialects differ. -/
theorem dialects_agree (d e : Dialect) (seed : BitVec 64) (image : List Byte) :
    (Machine.create d seed image).map (·.withDialect e) = Machine.create e seed image ∧
      ∀ m n, Machine.create d seed image = .ok m → Machine.create e seed image = .ok n →
        ∀ calls : List Call,
          (∀ w ∈ m.fetched calls, ∀ p : Point, d.holds p ≠ e.holds p → p.governs w = false) →
          (m.run calls).2 = (n.run calls).2 ∧
            ∀ k, (n.run (calls.take k)).1 = (m.run (calls.take k)).1.withDialect e := by
  have hcreate := Machine.create_withDialect d e seed image
  refine ⟨hcreate, fun m n hm hn calls hagree => ?_⟩
  rw [hm, hn] at hcreate
  have hsame : m.withDialect e = n := Except.ok.inj hcreate
  have hcons : m.Consistent d seed := Machine.consistent_create hm
  subst hsame
  refine ⟨?_, fun k => ?_⟩
  · rw [hcons.run_withDialect hagree]
  · -- what is fetched before a call is among all that is fetched
    have hbefore : ∀ w ∈ m.fetched (calls.take k), d.AgreeOn e w := by
      intro w hw
      apply hagree w
      rw [← List.take_append_drop k calls, Machine.fetched_append]
      exact List.mem_append_left _ hw
    rw [hcons.run_withDialect hbefore]

/-- The modern and the legacy dialect differ in the shifts, the moves and the bitwise operations. A
program adds, draws, jumps over a shift and calls machine code, at which it halts alike in both;
another one waits for a key. -/
theorem dialects_agree_jumps :
    let image : List Byte := [0x61, 0xFE, 0x80, 0x14, 0xD0, 0x15, 0xB2, 0x06, 0x80, 0x16]
    let calls : List Call := [.step, .step, .step, .tick, .takeDrawn, .step, .pressKey 16 true, .step,
      .step, .load [0xF3, 0x0A], .step, .pressKey 2 true, .step]
    ∃ m n, Machine.create .modern 7 image = .ok m ∧ Machine.create .legacy 7 image = .ok n ∧
      m.fetched calls = [0x61FE, 0x8014, 0xD015, 0xB206, 0x0000, 0xF30A] ∧
      (m.run calls).2 = (n.run calls).2 ∧ (m.run (calls.take 9)).1.status = .halted ∧
      (n.run (calls.take 9)).1 = (m.run (calls.take 9)).1.withDialect .legacy := by
  intro image calls
  have heval : ((Machine.create .modern 7 image).toOption.any fun m =>
      decide (m.fetched calls = [0x61FE, 0x8014, 0xD015, 0xB206, 0x0000, 0xF30A] ∧
        (m.run (calls.take 9)).1.status = .halted)) = true := by
    decide +kernel
  have hfits : image.length ≤ maxProgramSize := by decide
  obtain ⟨m, hm⟩ := Machine.create_of_le .modern 7 hfits
  obtain ⟨n, hn⟩ := Machine.create_of_le .legacy 7 hfits
  rw [hm] at heval
  simp only [Except.toOption, Option.any_some, decide_eq_true_eq] at heval
  obtain ⟨hfetched, hhalted⟩ := heval
  obtain ⟨-, hagree⟩ := dialects_agree .modern .legacy 7 image
  have hwords : ∀ w ∈ m.fetched calls, ∀ p : Point,
      Dialect.modern.holds p ≠ Dialect.legacy.holds p → p.governs w = false := by
    intro w hw p hdiffer
    rw [hfetched] at hw
    have hnone : [0x61FE, 0x8014, 0xD015, 0xB206, 0x0000, 0xF30A].all (!p.governs ·) = true := by
      revert hdiffer
      cases p <;> decide
    simpa using List.all_eq_true.1 hnone w hw
  obtain ⟨hreplies, hstates⟩ := hagree m n hm hn calls hwords
  exact ⟨m, n, hm, hn, hfetched, hreplies, hhalted, hstates 9⟩

end Chip8
