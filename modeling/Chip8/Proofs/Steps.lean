import Chip8.Proofs.Session

/-!
Steps that are counted.

Of what a host calls, some steps execute an instruction: those of a machine that neither waits for a
key nor has stopped, if it has not stopped after them either. `Machine.executed` counts them on the
states, where no one has to remember what was polled, and `Consistent.executed_step` says how a host
tells them from what it is told. `Machine.RunsThrough` are the calls that no step halts.
-/
namespace Chip8.Machine
variable {d : Dialect} {seed : BitVec 64} {m : Machine}

/-- The machine after a number of steps. -/
def stepped (m : Machine) (count : Nat) : Machine := (m.run (List.replicate count .step)).1

/-- The instructions among some calls: steps of a machine that neither waits nor has a fault record,
to one that has none. -/
def executed (m : Machine) : List Call → Nat
  | [] => 0
  | c :: rest =>
    let n := (m.call c).1
    let counts := c = .step ∧ m.state.fault.code = 0 ∧ m.state.waiting = false ∧
      n.state.fault.code = 0
    (if counts then 1 else 0) + n.executed rest

theorem stepped_succ (m : Machine) (count : Nat) :
    m.stepped (count + 1) = m.step.1.stepped count := rfl

theorem stepped_add (m : Machine) (a b : Nat) : m.stepped (a + b) = (m.stepped a).stepped b := by
  simp only [stepped, ← List.replicate_append_replicate, run_append]

theorem Consistent.stepped (h : m.Consistent d seed) (count : Nat) :
    (m.stepped count).Consistent d seed :=
  h.run (List.replicate count .step)

theorem executed_append (m : Machine) (a b : List Call) :
    m.executed (a ++ b) = m.executed a + (m.run a).1.executed b := by
  induction a generalizing m with
  | nil => exact (Nat.zero_add _).symm
  | cons c rest ih =>
    simp only [List.cons_append, executed, ih, Nat.add_assoc]
    rfl

theorem executed_replicate_add (m : Machine) (a b : Nat) :
    m.executed (List.replicate (a + b) .step) =
      m.executed (List.replicate a .step) + (m.stepped a).executed (List.replicate b .step) := by
  rw [← List.replicate_append_replicate, executed_append]
  rfl

theorem executed_replicate_succ (m : Machine) (count : Nat) :
    m.executed (List.replicate (count + 1) .step) =
      m.executed [.step] + m.step.1.executed (List.replicate count .step) :=
  m.executed_append [.step] (List.replicate count .step)

/-- A step counts unless it looks at the keypad or its machine has halted after it. -/
theorem Consistent.executed_step (h : m.Consistent d seed) :
    m.executed [.step] = if m.step.1.status = .halted ∨ m.status = .waiting then 0 else 1 := by
  have hafter : m.step.1.status = .halted ↔ m.step.1.state.fault.code ≠ 0 := by
    rw [h.step.status_eq, State.status_eq_halted_iff]
  have hwait : m.status = .waiting ↔ m.state.fault.code = 0 ∧ m.state.waiting = true := by
    rw [h.status_eq, State.status_eq_waiting_iff]
  -- a fault record stays
  have hstays : m.step.1.state.fault.code = 0 → m.state.fault.code = 0 := by
    intro hnone
    apply Decidable.byContradiction
    intro hcode
    rw [h.state_step, State.step_of_raised (State.raised_iff.2 hcode)] at hnone
    exact hcode hnone
  show (if _ ∧ _ ∧ _ ∧ m.step.1.state.fault.code = 0 then 1 else 0) + 0 = _
  by_cases hcode : m.step.1.state.fault.code = 0
  · cases hk : m.state.waiting <;> simp [hafter, hwait, hcode, hstays hcode, hk]
  · simp [hafter, hcode]

/-- Nothing happens to a machine that has halted. -/
theorem Consistent.stepped_of_halted (h : m.Consistent d seed) (hh : m.status = .halted)
    (count : Nat) : m.stepped count = m ∧ m.executed (.replicate count .step) = 0 := by
  have hstep : m.step.1 = m := by rw [step_of_halted hh]
  induction count with
  | zero => exact ⟨rfl, rfl⟩
  | succ count ih =>
    rw [stepped_succ, executed_replicate_succ, hstep, h.executed_step, hstep, if_pos (.inl hh),
      Nat.zero_add]
    exact ih

theorem executed_replicate_le (m : Machine) (count : Nat) :
    m.executed (List.replicate count .step) ≤ count := by
  induction count generalizing m with
  | zero => exact Nat.le_refl 0
  | succ count ih =>
    have hrest := ih m.step.1
    have hone : m.executed [.step] ≤ 1 := by
      rw [executed]
      split <;> simp [executed]
    rw [executed_replicate_succ]
    omega

/-- No step among some calls tells that the machine has halted. -/
def RunsThrough (m : Machine) (calls : List Call) : Prop :=
  ∀ report, .stepped report ∈ (m.run calls).2 → report.status ≠ .halted

theorem runsThrough_append {a b : List Call} :
    m.RunsThrough (a ++ b) ↔ m.RunsThrough a ∧ (m.run a).1.RunsThrough b := by
  simp only [RunsThrough, run_append, List.mem_append, or_imp, forall_and]

theorem runsThrough_step : m.RunsThrough [.step] ↔ m.step.2.status ≠ .halted := by
  simp [RunsThrough, run, call]

theorem Consistent.runsThrough_replicate (h : m.Consistent d seed) {count : Nat}
    (hc : ∀ k, 0 < k → k ≤ count → (m.stepped k).status ≠ .halted) :
    m.RunsThrough (List.replicate count .step) := by
  induction count with
  | zero => exact fun report hmem => by cases hmem
  | succ count ih =>
    rw [List.replicate_succ', runsThrough_append]
    refine ⟨ih fun k hpos hk => hc k hpos (Nat.le_succ_of_le hk), ?_⟩
    have hlast : (m.stepped count).step.2 = (m.stepped count).step.1.told :=
      (h.stepped count).report_step
    have hstepped : m.stepped (count + 1) = (m.stepped count).step.1 := m.stepped_add count 1
    rw [runsThrough_step]
    change (m.stepped count).step.2.status ≠ .halted
    rw [hlast, Machine.told, ← hstepped]
    exact hc (count + 1) (Nat.succ_pos _) (Nat.le_refl _)

end Chip8.Machine
