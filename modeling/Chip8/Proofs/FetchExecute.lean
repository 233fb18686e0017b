import Chip8.Proofs.WellFormed

/-!
Steps taken in two parts.

A host can fetch a word and execute it by itself. It need not say where the word came from: the
address two before the counter is taken, which is right also where the fetch went past the end of
memory and the counter is at zero or one (`lastAddress_fetch`). A step differs only in what a fault
does to the counter. After a fault in two parts the counter stays past the word, since the fetch is
not taken back; a step takes it back too (`rollback`). The main result is `step_eq_fetch_execute`.
-/
namespace Chip8.State
variable {s : State}

/-- The address that is given by default is the one that the word was fetched from. -/
theorem lastAddress_fetch (hpc : s.pc.toNat ≤ 0xFFF) : s.fetch.1.lastAddress.wrap = s.pc :=
  wrap_sub_wrap_add (Nat.lt_succ_of_le hpc)

/-- A fault of a fetched word is recorded alike with the default address and with the true one. -/
theorem record_lastAddress (hpc : s.pc.toNat ≤ 0xFFF) (f : Fault) :
    FaultRecord.of f s.fetch.1.lastAddress = FaultRecord.of f s.pc := by
  rw [FaultRecord.of, FaultRecord.of, lastAddress_fetch hpc,
    Word.wrap_of_lt (Nat.lt_succ_of_le hpc)]

/-- **A step is a fetch and an execution,** with the counter put back to the word if that fails. It
is as well the execution with the word's own address, taken back as a whole if it fails. -/
theorem step_eq_fetch_execute (d : Dialect) (s : State) (hf : s.fault.code = 0)
    (hk : s.waiting = false) (hpc : s.pc.toNat ≤ 0xFFF) :
    let t := s.fetch.1
    let w := s.fetch.2
    let r := t.execute d w t.lastAddress
    (r.fault.code = 0 → s.step d = r) ∧ (r.fault.code ≠ 0 → s.step d = {r with pc := s.pc}) ∧
      s.step d = s.rollback (t.execute d w s.pc) s.pc ∧ t.lastAddress.wrap = s.pc := by
  intro t w r
  have hr : s.fault.raised = false := not_raised_iff.2 hf
  have htaken : s.step d = s.rollback (t.execute d w s.pc) s.pc := step_of_running hr hk
  cases ho : t.outcome d w with
  | error f =>
    have hstep : s.step d = {s with fault := FaultRecord.of f s.pc} := step_of_fault hr hk ho
    have hfails : r = {t with fault := FaultRecord.of f s.pc} := by
      rw [← record_lastAddress hpc]
      exact execute_of_error ho t.lastAddress
    refine ⟨?_, ?_, htaken, lastAddress_fetch hpc⟩
    · intro hnone
      rw [hfails] at hnone
      exact absurd hnone f.code_ne_zero
    · intro _
      rw [hstep, hfails]
      rfl
  | ok u =>
    have hstep : s.step d = u := step_of_outcome hr hk ho
    have hu : u.fault = s.fault := fault_of_outcome (s := t) ho
    have hdone (address : Word) : t.execute d w address = u := execute_of_ok ho hr address
    refine ⟨?_, ?_, htaken, lastAddress_fetch hpc⟩
    · intro _
      rw [hstep]
      exact (hdone t.lastAddress).symm
    · intro hcode
      have hnone : r.fault.code = 0 := by
        show (t.execute d w t.lastAddress).fault.code = 0
        rw [hdone, hu, hf]
      exact absurd hnone hcode

/-- At the last byte of memory the counter comes round to one, and two less is the largest word.
Data there fails and the counter is put back; another word loads a register. -/
theorem step_eq_fetch_execute_end_of_memory :
    let s : State := {fresh ⟨0, 0⟩ with pc := 0xFFF}
    let t := s.fetch.1
    let r := t.execute .modern s.fetch.2 t.lastAddress
    let s' : State := {s with memory := Memory.fresh.write 0xFFF 0x6A}
    (s.fault.code = 0 ∧ s.waiting = false ∧ s.pc.toNat ≤ 0xFFF) ∧ t.pc = 1 ∧
      t.lastAddress = 0xFFFF ∧ t.lastAddress.wrap = 0xFFF ∧ r.fault = ⟨1, 0xFFF, 0x00F0⟩ ∧ r.pc = 1 ∧
      s.step .modern = {r with pc := 0xFFF} ∧
      s'.step .modern = s'.fetch.1.execute .modern 0x6AF0 s'.fetch.1.lastAddress := by
  intro s t r s'
  obtain ⟨-, hfails, -, haddress⟩ := step_eq_fetch_execute .modern s rfl rfl (by decide)
  obtain ⟨hdone, -⟩ := step_eq_fetch_execute .modern s' rfl rfl (by decide)
  have hrecord : r.fault = ⟨1, 0xFFF, 0x00F0⟩ ∧ r.pc = 1 := by decide +kernel
  have hload : s'.fetch.2 = 0x6AF0 ∧
      (s'.fetch.1.execute .modern 0x6AF0 s'.fetch.1.lastAddress).fault.code = 0 := by decide +kernel
  obtain ⟨hfault, hpc⟩ := hrecord
  obtain ⟨hword, hnone⟩ := hload
  rw [hword] at hdone
  refine ⟨⟨rfl, rfl, by decide⟩, by decide, by decide, haddress, hfault, hpc, ?_, hdone hnone⟩
  apply hfails
  rw [hfault]
  decide

end Chip8.State
