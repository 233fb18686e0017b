import Chip8.Proofs.Atomicity
import Chip8.Proofs.Transfer

/-!
Transfers of a host.

A host may write anywhere, the area of the machine included. The write is made all the same, and the
first place of it in that area goes to the fault record (`fault_writeBytes_of_first`). The host
hands in integers of thirty-two bits, of which the count may be below zero or past the end of the
values (`writeValues_integers`). The main result `host_transfer` says place by place, in exact
integers, what memory holds afterwards, and what the fault record does.
-/
namespace Chip8.State
variable {s : State} {start : Int} {values : List Byte}

/-! ### Memory and the fault record -/

/-- A transfer changes memory and the fault record. -/
theorem writeBytes_eq (s : State) (start : Int) (values : List Byte) (count : Int) :
    s.writeBytes start values count =
      {s with
        memory := s.memory.transfer start values count
        fault := (s.writeBytes start values count).fault} := by
  simp only [writeBytes]
  split <;> rfl

/-- The address of the instruction that failed is not recorded, for there is none. -/
theorem fault_writeBytes_of_first {count : Int} {i : Nat} (hi : i < min count.toNat values.length)
    (hlow : (Memory.place start i).toNat < programStart)
    (hfirst : ∀ j < i, programStart ≤ (Memory.place start j).toNat) :
    (s.writeBytes start values count).fault =
      {s.fault with code := 4, value := (Memory.place start i).toNat} := by
  have hsome := Memory.firstProtected?_eq_some_iff.2 ⟨i, hi, rfl, hlow, hfirst⟩
  simp only [writeBytes, hsome]
  rfl

theorem fault_writeBytes_of_free {count : Int}
    (hfree : ∀ i < min count.toNat values.length, programStart ≤ (Memory.place start i).toNat) :
    (s.writeBytes start values count).fault = s.fault := by
  have hnone := Memory.firstProtected?_eq_none_iff.2 hfree
  simp only [writeBytes, hnone]

/-! ### Integers of a host -/

theorem bytesOfValue_integers (values : List Byte) :
    bytesOfValue (.list (values.map fun b => .integer b.toNat)) = .ok values := by
  have hentry (b : Byte) : Value.unsigned 8 (.integer b.toNat) = .ok b := by
    rw [Value.unsigned, Value.entry_byte]
    rfl
  induction values with
  | nil => rfl
  | cons b rest ih =>
    simp only [bytesOfValue, List.map_cons, List.mapM_cons, hentry] at ih ⊢
    rw [ih]
    rfl

/-- Integers in range are transferred as they are, and all of them without a count. -/
theorem writeValues_integers {count : Option Int}
    (hstart : -0x80000000 ≤ start ∧ start < 0x80000000) (hvalues : values ≠ [])
    (hcount : ∀ c ∈ count, -0x80000000 ≤ c ∧ c < 0x80000000) :
    s.writeValues (.integer start) (.list (values.map fun b => .integer b.toNat))
        (count.map .integer) =
      .ok (s.writeBytes start values (count.getD values.length)) := by
  have hs : (Value.integer start).int32 = .ok start := moved_integer _ _ _ hstart
  have hc : (count.map Value.integer).elim (.ok (values.length : Int)) Value.bound =
      .ok (count.getD values.length) := by
    cases count with
    | none => rfl
    | some c =>
      have hbound : (Value.integer c).bound = .ok c := moved_integer _ _ _ (hcount c rfl)
      exact hbound
  simp only [writeValues, bytesOfValue_integers, hs, hc, bind, Except.bind]
  rw [if_neg (by simpa using hvalues)]

/-- **A host's transfer puts each value in its place.** The places go round at the end of memory,
the first of them in the area of the machine is recorded as a fault, and nothing else changes. -/
theorem host_transfer (s : State) (start : Int) (values : List Byte) (count : Option Int)
    (hstart : -0x80000000 ≤ start ∧ start < 0x80000000)
    (hlength : 1 ≤ values.length ∧ values.length ≤ 4096)
    (hcount : ∀ c ∈ count, -0x80000000 ≤ c ∧ c < 0x80000000) :
    let place (i : Nat) : Int := (start + i) % 4096
    let m := (max 0 (min (values.length : Int) (count.getD values.length))).toNat
    ∃ t, s.writeValues (.integer start) (.list (values.map fun b => .integer b.toNat))
        (count.map .integer) = .ok t ∧
      (∀ i (hi : i < values.length), i < m → ∀ a : Address, (a.toNat : Int) = place i →
        t.memory.read a = values[i]) ∧
      (∀ a : Address, (∀ i < m, (a.toNat : Int) ≠ place i) →
        t.memory.read a = s.memory.read a) ∧
      (∀ i < m, place i < programStart → (∀ j < i, programStart ≤ place j) →
        t.fault = {s.fault with code := 4, value := place i}) ∧
      ((∀ i < m, programStart ≤ place i) → t.fault = s.fault) ∧
      t = {s with memory := t.memory, fault := t.fault} ∧
      t.memory.readAll start m = values.take m ∧
      ∀ i, (((BitVec.ofInt 32 start + BitVec.ofNat 32 i).setWidth 12).toNat : Int) = place i := by
  intro place m
  have hplace (i : Nat) : ((Memory.place start i).toNat : Int) = place i :=
    Memory.toNat_place start i
  obtain ⟨c, hc⟩ : ∃ c : Int, count.getD values.length = c := ⟨_, rfl⟩
  obtain ⟨t, ht⟩ : ∃ t, s.writeBytes start values c = t := ⟨_, rfl⟩
  have hwrite := writeValues_integers (s := s) hstart (List.ne_nil_of_length_pos hlength.1) hcount
  rw [hc, ht] at hwrite
  have hm : m = min c.toNat values.length := by omega
  have heq := writeBytes_eq s start values c
  rw [ht] at heq
  have hmemory : t.memory = s.memory.transfer start values c := congrArg State.memory heq
  refine ⟨t, hwrite, fun i hi him a ha => ?_, fun a ha => ?_, fun i hi hlow hfirst => ?_,
    fun hfree => ?_, by rw [hmemory]; exact heq, ?_, fun i => ?_⟩
  · obtain rfl : a = Memory.place start i :=
      BitVec.eq_of_toNat_eq (Int.ofNat_inj.1 (ha.trans (hplace i).symm))
    rw [hmemory]
    exact Memory.read_transfer_place hlength.2 hi (by omega)
  · rw [hmemory]
    apply Memory.read_transfer_of_ne
    rintro j hj hjc rfl
    exact ha j (by omega) (hplace j)
  · rw [← hplace] at hlow ⊢
    rw [← ht]
    refine fault_writeBytes_of_first (by omega) (by omega) fun j hj => ?_
    have := hfirst j hj
    rw [← hplace] at this
    omega
  · rw [← ht]
    refine fault_writeBytes_of_free fun i hi => ?_
    have := hfree i (by omega)
    rw [← hplace] at this
    omega
  · rw [hmemory]
    exact Memory.readAll_transfer hlength.2 (by omega) (by omega)
  · rw [Memory.setWidth_add_eq_place, hplace]

/-- Two of three values from the largest integer of thirty-two bits on. The second place is address
zero, so it is written and recorded; the third value stays out. -/
theorem host_transfer_largest :
    let s := fresh ⟨0, 0⟩
    let start : Int := 0x7FFFFFFF
    start < 0x80000000 ∧
      ∃ t, s.writeValues (.integer start) (.list [.integer 7, .integer 8, .integer 9])
          (some (.integer 2)) = .ok t ∧
        t.memory.read 0xFFF = 7 ∧ t.memory.read 0x000 = 8 ∧
        t.memory.read 0x001 = s.memory.read 0x001 ∧ t.fault = ⟨4, 0, 0⟩ ∧ t.pc = s.pc ∧
        t.memory.readAll start 2 = [7, 8] := by
  intro s start
  have hlt : start < 0x80000000 := by decide
  obtain ⟨t, hwrite, hvalues, hkept, hfirst, -, hrest, hread, -⟩ :=
    host_transfer s start [7, 8, 9] (some 2) ⟨by decide, hlt⟩ ⟨by decide, by decide⟩
      (by rintro c ⟨⟩; decide)
  refine ⟨hlt, t, hwrite, hvalues 0 (by decide) (by decide) 0xFFF (by decide),
    hvalues 1 (by decide) (by decide) 0x000 (by decide), hkept 0x001 (by decide),
    hfirst 1 (by decide) (by decide) (by decide), by rw [hrest], hread⟩

end Chip8.State
