import Chip8.Proofs.Atomicity
import Chip8.Stack
import Mathlib.Data.List.Basic

/-!
Stacks driven past their end.

A stack answers every request, also to push on sixteen addresses and to pop from none. What it
answers is said by a `Pile`: a list of at most sixteen addresses, and the number of pushes that
found it full and were not popped yet. A stack `Holds` a pile if its pointer counts both and its
slots are the addresses and then zeros. A push and a pop keep this (`Holds.push`, `Holds.pop`), for
inside the slots an address is put down or cleared (`set_slotsOf_push`, `set_slotsOf_pop`), and past
them a write is lost and a read gives the last slot, which has the last address
(`Holds.address_pop`). The main result `serve_refines` is that a stack and its pile give the same
replies to all requests.
-/
namespace Chip8

/-- Return addresses from the bottom up, and the pushes that were refused and not popped. -/
structure Pile where
  addresses : List Address
  refused : Nat
  length_le : addresses.length ≤ stackDepth
  /-- A push is refused only for want of room. -/
  full_of_refused : 0 < refused → addresses.length = stackDepth

namespace Pile

def empty : Pile where
  addresses := []
  refused := 0
  length_le := Nat.zero_le stackDepth
  full_of_refused h := absurd h (Nat.lt_irrefl 0)

/-- Put an address on the pile, or count a refusal if there is no room; true if there is none. -/
def push (p : Pile) (a : Address) : Pile × Bool :=
  if h : p.addresses.length < stackDepth then
    ({p with
      addresses := p.addresses ++ [a]
      length_le := by
        rw [List.length_append]
        exact h
      full_of_refused := fun hr => absurd (p.full_of_refused hr) (Nat.ne_of_lt h)}, false)
  else
    ({p with
      refused := p.refused + 1
      full_of_refused := fun _ => Nat.le_antisymm p.length_le (Nat.le_of_not_lt h)}, true)

/-- Take a refusal back, or else the last address, or else nothing. The address is the last one also
if it stays, and zero if there is none; true if there was nothing at all. -/
def pop (p : Pile) : Pile × Address × Bool :=
  if h : 0 < p.refused then
    ({p with
      refused := p.refused - 1
      full_of_refused := fun _ => p.full_of_refused h}, p.addresses.getLastD 0, false)
  else if p.addresses = [] then (p, 0, true)
  else
    ({p with
      addresses := p.addresses.dropLast
      length_le := by
        have := p.length_le
        rw [List.length_dropLast]
        omega
      full_of_refused := fun hr => absurd hr h}, p.addresses.getLastD 0, false)

/-! ### Addresses and refusals together -/

/-- The pushes that were not popped, the refused ones among them. -/
def size (p : Pile) : Nat := p.addresses.length + p.refused

theorem length_eq (p : Pile) : p.addresses.length = min p.size stackDepth := by
  have := p.length_le
  have := p.full_of_refused
  rw [size]
  omega

theorem addresses_eq_nil_iff {p : Pile} : p.addresses = [] ↔ p.size = 0 := by
  have := p.length_eq
  have : 0 < stackDepth := by decide
  rw [← List.length_eq_zero_iff]
  omega

variable (p : Pile) (a : Address)

theorem size_push : (p.push a).1.size = p.size + 1 := by
  rw [push]
  split
  · simp only [size, List.length_append, List.length_singleton]
    omega
  · rfl

theorem addresses_push :
    (p.push a).1.addresses = if p.size < stackDepth then p.addresses ++ [a] else p.addresses := by
  have := p.length_eq
  rw [push]
  split
  · rw [if_pos (by omega)]
  · rw [if_neg (by omega)]

theorem overflow_push : (p.push a).2 = decide (stackDepth ≤ p.size) := by
  have := p.length_eq
  rw [push]
  split
  · exact (decide_eq_false (by omega)).symm
  · exact (decide_eq_true (by omega)).symm

theorem size_pop : p.pop.1.size = p.size - 1 := by
  rw [pop]
  split
  · next h => exact (Nat.add_sub_assoc h p.addresses.length).symm
  split
  · next hnone =>
    rw [addresses_eq_nil_iff.1 hnone]
  · simp only [size, List.length_dropLast]
    omega

theorem addresses_pop :
    p.pop.1.addresses = if stackDepth < p.size then p.addresses else p.addresses.dropLast := by
  have hlength := p.length_eq
  have hsize : p.size = p.addresses.length + p.refused := rfl
  rw [pop]
  split
  · next h =>
    have hfull := p.full_of_refused h
    rw [if_pos (by omega)]
  have hle : ¬ stackDepth < p.size := by omega
  rw [if_neg hle]
  split
  · next hnone => rw [hnone]; rfl
  · rfl

theorem address_pop : p.pop.2.1 = p.addresses.getLastD 0 := by
  rw [pop]
  split
  · rfl
  split
  · next hnone => rw [hnone]; rfl
  · rfl

theorem underflow_pop : p.pop.2.2 = decide (p.size = 0) := by
  rw [pop]
  split
  · next h => exact (decide_eq_false (by rw [size]; omega)).symm
  split
  · next hnone => exact (decide_eq_true (addresses_eq_nil_iff.1 hnone)).symm
  · next hsome => exact (decide_eq_false (mt addresses_eq_nil_iff.2 hsome)).symm

end Pile

namespace Stack

/-- What can be asked of a stack. -/
inductive Request where
  | push (address : Int)
  | pop
  deriving DecidableEq, Repr

/-- What a stack replies. -/
inductive Reply where
  | pushed (overflow : Bool)
  | popped (address : Word) (underflow : Bool)
  deriving DecidableEq, Repr

/-- An address is pushed as an integer of thirty-two bits. -/
def Request.Fits : Request → Prop
  | .push a => -0x80000000 ≤ a ∧ a < 0x80000000
  | .pop => True

instance : DecidablePred Request.Fits
  | .push a => inferInstanceAs (Decidable (-0x80000000 ≤ a ∧ a < 0x80000000))
  | .pop => inferInstanceAs (Decidable True)

def answer (s : Stack) : Request → Except Refusal (Stack × Reply)
  | .push a => (Value.integer a).address.map fun w => ((s.push w).1, .pushed (s.push w).2)
  | .pop => .ok (s.pop.stack, .popped s.pop.address s.pop.underflow)

/-- The stack after some requests, and the reply to each. -/
def serve (s : Stack) : List Request → Except Refusal (Stack × List Reply)
  | [] => .ok (s, [])
  | r :: rest => do
    let (t, reply) ← s.answer r
    let (u, replies) ← t.serve rest
    return (u, reply :: replies)

end Stack

namespace Pile
open Stack (Request)

/-- What a pile replies. Of a pushed integer it keeps the low twelve bits. -/
def answer (p : Pile) : Request → Pile × Stack.Reply
  | .push a => ((p.push (BitVec.ofInt 12 a)).1, .pushed (p.push (BitVec.ofInt 12 a)).2)
  | .pop => (p.pop.1, .popped (p.pop.2.1.setWidth 16) p.pop.2.2)

def serve (p : Pile) : List Request → Pile × List Stack.Reply
  | [] => (p, [])
  | r :: rest =>
    let (q, replies) := (p.answer r).1.serve rest
    (q, (p.answer r).2 :: replies)

end Pile

namespace Stack

/-- The slots of a pile: its addresses and then zeros. -/
def slotsOf (l : List Address) : List Word :=
  l.map (BitVec.setWidth 16) ++ List.replicate (stackDepth - l.length) 0

/-- A stack that stands for a pile. -/
structure Holds (s : Stack) (p : Pile) : Prop where
  pointer_eq : s.pointer = p.size
  slots_eq : s.slots.toList = slotsOf p.addresses

theorem holds_empty : empty.Holds Pile.empty where
  pointer_eq := rfl
  slots_eq := by decide

variable {s : Stack} {p : Pile} {r : Request}

/-! ### Slots -/

/-- A write at or past the end of the slots is lost. -/
theorem toList_write (slots : Vector Word 16) {i : Int} (hi : 0 ≤ i) (w : Word) :
    (write slots i w).toList = slots.toList.set i.toNat w := by
  by_cases h : i < 16
  · have hentry : slot? 16 i = some ⟨i.toNat, by omega⟩ := slot?_of_lt hi h
    simp only [write, hentry, Vector.toList_set]
  · have hentry : slot? 16 i = none := slot?_of_ge (Int.not_lt.1 h)
    simp only [write, hentry]
    rw [List.set_eq_of_length_le]
    rw [Vector.length_toList]
    omega

theorem slotsOf_of_lt {l : List Address} (h : l.length < stackDepth) :
    slotsOf l = l.map (BitVec.setWidth 16) ++ 0 :: List.replicate (stackDepth - l.length - 1) 0 := by
  rw [slotsOf, ← List.replicate_succ, Nat.sub_add_cancel (Nat.sub_pos_of_lt h)]

theorem slotsOf_concat (l : List Address) (a : Address) :
    slotsOf (l ++ [a]) =
      l.map (BitVec.setWidth 16) ++
        a.setWidth 16 :: List.replicate (stackDepth - l.length - 1) 0 := by
  simp [slotsOf, Nat.sub_sub]

theorem set_length_map {α β : Type} (f : α → β) (l : List α) (b c : β) (rest : List β) :
    (l.map f ++ b :: rest).set l.length c = l.map f ++ c :: rest := by
  simp

theorem length_slotsOf {l : List Address} (h : l.length ≤ stackDepth) :
    (slotsOf l).length = stackDepth := by
  rw [slotsOf, List.length_append, List.length_map, List.length_replicate]
  omega

/-- The last address is in the slot below the number of addresses. Without an address that is the
first slot, and it is clear. -/
theorem getElem?_slotsOf (l : List Address) :
    (slotsOf l)[l.length - 1]? = some ((l.getLastD 0).setWidth 16) := by
  rcases List.eq_nil_or_concat' l with rfl | ⟨init, a, rfl⟩
  · rfl
  · rw [slotsOf_concat]
    simp

/-- A write past the slots changes none. -/
theorem set_slotsOf_of_le {i : Nat} (hi : stackDepth ≤ i) (p : Pile) (w : Word) :
    (slotsOf p.addresses).set i w = slotsOf p.addresses := by
  rw [List.set_eq_of_length_le]
  rw [length_slotsOf p.length_le]
  exact hi

/-- The first free slot takes an address, if there is one. -/
theorem set_slotsOf_push (p : Pile) (a : Address) :
    (slotsOf p.addresses).set p.size (a.setWidth 16) = slotsOf (p.push a).1.addresses := by
  have hlength := p.length_eq
  rw [p.addresses_push a]
  by_cases hroom : p.size < stackDepth
  · have hplace : p.size = p.addresses.length := by omega
    rw [if_pos hroom, slotsOf_of_lt (by omega), slotsOf_concat, hplace, set_length_map]
  · rw [if_neg hroom, set_slotsOf_of_le (Nat.le_of_not_lt hroom)]

/-- The slot of the last address is cleared, if the pointer comes back to it. -/
theorem set_slotsOf_pop (p : Pile) :
    (slotsOf p.addresses).set (p.size - 1) 0 = slotsOf p.pop.1.addresses := by
  have hlength := p.length_eq
  rw [p.addresses_pop]
  by_cases hpast : stackDepth < p.size
  · rw [if_pos hpast, set_slotsOf_of_le (Nat.le_sub_one_of_lt hpast)]
  rw [if_neg hpast]
  rcases List.eq_nil_or_concat' p.addresses with hnone | ⟨init, a, hsome⟩
  · rw [hnone, Pile.addresses_eq_nil_iff.1 hnone]
    rfl
  · have hinit : p.addresses.length = init.length + 1 := by
      rw [hsome, List.length_append, List.length_singleton]
    have hplace : p.size - 1 = init.length := by omega
    have hroom : init.length < stackDepth := by omega
    rw [hsome, List.dropLast_concat, slotsOf_concat, slotsOf_of_lt hroom, hplace, set_length_map]

/-! ### A push and a pop -/

theorem Holds.push (h : s.Holds p) (w : Word) :
    (s.push w).1.Holds (p.push (w.setWidth 12)).1 ∧ (s.push w).2 = (p.push (w.setWidth 12)).2 := by
  have hpointer := h.pointer_eq
  refine ⟨⟨?_, ?_⟩, ?_⟩
  · show s.pointer + 1 = _
    rw [p.size_push, hpointer]
    rfl
  · show (write s.slots s.pointer w.wrap).toList = _
    rw [toList_write s.slots (by omega), h.slots_eq, hpointer, Int.toNat_natCast]
    exact set_slotsOf_push p (w.setWidth 12)
  · show decide ((stackDepth : Int) ≤ s.pointer) = _
    rw [p.overflow_push, hpointer]
    exact decide_eq_decide.2 Int.ofNat_le

/-- A pop reads the last address, also where the pointer is past the slots. -/
theorem Holds.address_pop (h : s.Holds p) :
    s.pop.address = (p.addresses.getLastD 0).setWidth 16 := by
  have hpointer := h.pointer_eq
  have hlength := p.length_eq
  have hdepth : stackDepth = 16 := rfl
  have htop : min (max (s.pointer - 1) 0).toNat 15 = p.addresses.length - 1 := by omega
  have hread := getElem?_slotsOf p.addresses
  rw [← h.slots_eq, ← htop, List.getElem?_eq_some_iff] at hread
  obtain ⟨_, hread⟩ := hread
  exact hread

theorem Holds.pop (h : s.Holds p) :
    s.pop.stack.Holds p.pop.1 ∧ s.pop.address = p.pop.2.1.setWidth 16 ∧
      s.pop.underflow = p.pop.2.2 := by
  have hpointer := h.pointer_eq
  have htop : max (s.pointer - 1) 0 = (p.size - 1 : Nat) := by omega
  refine ⟨⟨?_, ?_⟩, ?_, ?_⟩
  · rw [p.size_pop]
    exact htop
  · show (write s.slots (max (s.pointer - 1) 0) 0).toList = _
    rw [toList_write s.slots (by omega), h.slots_eq, htop, Int.toNat_natCast]
    exact set_slotsOf_pop p
  · rw [h.address_pop, p.address_pop]
  · show decide (s.pointer ≤ 0) = _
    rw [p.underflow_pop]
    exact decide_eq_decide.2 (by omega)

/-! ### All requests -/

/-- The low twelve bits of an integer, taken at once or after the low sixteen. -/
theorem setWidth_ofInt (n : Int) : (BitVec.ofInt 16 n).setWidth 12 = BitVec.ofInt 12 n := by
  apply BitVec.eq_of_toNat_eq
  rw [BitVec.toNat_setWidth, BitVec.toNat_ofInt, BitVec.toNat_ofInt]
  omega

theorem Holds.answer (h : s.Holds p) (hr : r.Fits) :
    ∃ t, s.answer r = .ok (t, (p.answer r).2) ∧ t.Holds (p.answer r).1 := by
  cases r with
  | push a =>
    obtain ⟨hholds, hreply⟩ := h.push (BitVec.ofInt 16 a)
    rw [setWidth_ofInt] at hholds hreply
    refine ⟨(s.push (BitVec.ofInt 16 a)).1, ?_, hholds⟩
    rw [Stack.answer, State.address_integer hr, Except.map, hreply]
    rfl
  | pop =>
    obtain ⟨hholds, haddress, hnone⟩ := h.pop
    refine ⟨s.pop.stack, ?_, hholds⟩
    rw [Stack.answer, haddress, hnone]
    rfl

theorem Holds.serve {requests : List Request} (h : s.Holds p) (hr : ∀ r ∈ requests, r.Fits) :
    ∃ t, s.serve requests = .ok (t, (p.serve requests).2) ∧ t.Holds (p.serve requests).1 := by
  induction requests generalizing s p with
  | nil => exact ⟨s, rfl, h⟩
  | cons r rest ih =>
    obtain ⟨t, hanswer, ht⟩ := h.answer (hr r List.mem_cons_self)
    obtain ⟨u, hserve, hu⟩ := ih ht fun r' hr' => hr r' (List.mem_cons_of_mem r hr')
    refine ⟨u, ?_, hu⟩
    simp only [Stack.serve, hanswer, hserve, Pile.serve, bind, Except.bind]
    rfl

/-- **A stack is a pile of sixteen addresses,** which refuses a push when it is full and has its
refusals taken back first. The pointer counts both. -/
theorem serve_refines (requests : List Request) (h : ∀ r ∈ requests, r.Fits) :
    let pile := (Pile.empty.serve requests).1
    let replies := (Pile.empty.serve requests).2
    ∃ s, empty.serve requests = .ok (s, replies) ∧
      s.pointer = pile.addresses.length + pile.refused ∧
      s.slots.toList =
        pile.addresses.map (BitVec.setWidth 16) ++
          List.replicate (16 - pile.addresses.length) 0 := by
  obtain ⟨s, hserve, hholds⟩ := holds_empty.serve h
  exact ⟨s, hserve, hholds.pointer_eq, hholds.slots_eq⟩

/-- A pop of nothing, then seventeen pushes, of which the last finds no room. The first of the pops
after them takes the refusal back, and the last address comes twice. -/
theorem serve_refines_past_end :
    let requests :=
      Request.pop :: (List.range 17).map (fun i => .push (0x1000 + i)) ++ [.pop, .pop, .pop]
    (∀ r ∈ requests, r.Fits) ∧
      ∃ s, empty.serve requests =
          .ok (s, .popped 0 true :: List.replicate 16 (.pushed false) ++
            [.pushed true, .popped 15 false, .popped 15 false, .popped 14 false]) ∧
        s.pointer = 14 ∧ s.slots.toList = (List.range 14).map (BitVec.ofNat 16) ++ [0, 0] := by
  intro requests
  have hfits : ∀ r ∈ requests, r.Fits := by decide +kernel
  obtain ⟨s, hserve, hpointer, hslots⟩ := serve_refines requests hfits
  have hreplies : (Pile.empty.serve requests).2 =
      .popped 0 true :: List.replicate 16 (.pushed false) ++
        [.pushed true, .popped 15 false, .popped 15 false, .popped 14 false] := by decide +kernel
  rw [hreplies] at hserve
  refine ⟨hfits, s, hserve, hpointer.trans (by decide +kernel), ?_⟩
  exact hslots.trans (by decide +kernel)

end Stack
end Chip8
