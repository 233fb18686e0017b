import Chip8.Proofs.Transfer
import Chip8.State

/-!
Tables read by number.

The machine reads its tables through words that are as wide as the table is long. Here an index is
an integer, and one outside of its table has no entry: reading it or writing to it fails (`get?`,
`set?`), and so does an access to many entries of which one is missing (`gather?`, `scatter?`).
Registers, keys and memory answer to every word that names an entry of theirs; so do the places of a
transfer, all of which are read and all of which are written.
-/
namespace Chip8

namespace Table
variable {α : Type} {n k : Nat}

/-- The entry at an index of the table. -/
def get? (t : Vector α n) (i : Int) : Option α :=
  if h : 0 ≤ i ∧ i < n then
    have : i.toNat < n := by omega
    some t[i.toNat]
  else none

/-- The table with the entry at an index of it replaced. -/
def set? (t : Vector α n) (i : Int) (a : α) : Option (Vector α n) :=
  if h : 0 ≤ i ∧ i < n then some (t.set i.toNat a (by omega)) else none

/-- The entries at many indices, all of the table. -/
def gather? (t : Vector α n) (index : Fin k → Int) : Option (Fin k → α) :=
  if h : ∀ i, (get? t (index i)).isSome then some fun i => (get? t (index i)).get (h i) else none

/-- The table with the entries at many indices replaced one after the other, all of the table. -/
def scatter? (t : Vector α n) (index : Fin k → Int) (value : Fin k → α) : Option (Vector α n) :=
  (List.finRange k).foldlM (fun t i => set? t (index i) (value i)) t

theorem get?_natCast {t : Vector α n} {i : Nat} (h : i < n) : get? t i = some t[i] := by
  rw [get?, dif_pos ⟨Int.natCast_nonneg i, Int.ofNat_lt.2 h⟩]
  rfl

theorem set?_natCast {t : Vector α n} {i : Nat} (h : i < n) (a : α) :
    set? t i a = some (t.set i a) := by
  rw [set?, dif_pos ⟨Int.natCast_nonneg i, Int.ofNat_lt.2 h⟩]
  rfl

theorem gather?_eq_some {t : Vector α n} {index : Fin k → Int} {f : Fin k → α}
    (h : ∀ i, get? t (index i) = some (f i)) : gather? t index = some f := by
  simp only [gather?, h, Option.isSome_some, implies_true, dite_true, Option.get_some]

/-! ### The tables of the machine -/

theorem get?_registers (v : Registers) (x : Nibble) : get? v x.toNat = some (v.read x) :=
  get?_natCast x.isLt

theorem set?_registers (v : Registers) (x : Nibble) (b : Byte) :
    set? v x.toNat b = some (v.write x b) :=
  set?_natCast x.isLt b

theorem get?_keypad (k : Keypad) (key : Nibble) : get? k key.toNat = some (k.isDown key) :=
  get?_natCast key.isLt

theorem get?_memory (m : Memory) (a : Address) : get? m a.toNat = some (m.read a) :=
  get?_natCast a.isLt

theorem set?_memory (m : Memory) (a : Address) (b : Byte) :
    set? m a.toNat b = some (m.write a b) :=
  set?_natCast a.isLt b

/-! ### Transfers -/

theorem gather?_places (m : Memory) (start : Int) :
    gather? m (fun i : Fin k => (start + i.val) % 4096) =
      some fun i : Fin k => m.read (Memory.place start i) := by
  apply gather?_eq_some
  intro i
  rw [← Memory.toNat_place, get?_memory]

/-- A transfer from place `i` on writes to indices of memory only. -/
theorem foldlM_set?_places (old : Memory) (start count : Int) (value : Nat → Byte) (k i : Nat)
    (m : Memory) :
    (List.finRange k).foldlM (fun m (j : Fin k) =>
        set? m (Memory.place start (i + j.val)).toNat
          (if (i + j.val : Nat) < count then value (i + j.val)
            else old.read (Memory.place start (i + j.val)))) m =
      some (Memory.transferFrom old start count i m
        (List.ofFn fun j : Fin k => value (i + j.val))) := by
  simp only [set?_memory]
  induction k generalizing i m with
  | zero => rfl
  | succ k ih =>
    have hshift : ∀ j : Fin k, i + (j.val + 1) = i + 1 + j.val := by
      intro j
      omega
    rw [List.finRange_succ, List.foldlM_cons, List.ofFn_succ, Memory.transferFrom]
    simp only [List.foldlM_map, Fin.val_zero, Fin.val_succ, Nat.add_zero,
      Option.bind_eq_bind, Option.bind_some, hshift]
    exact ih (i + 1) _

theorem scatter?_places (m : Memory) (start count : Int) (values : Vector Byte k) :
    scatter? m (fun i : Fin k => (start + i.val) % 4096)
        (fun i => if i.val < count then values.get i else m.read (Memory.place start i)) =
      some (m.transfer start values.toList count) := by
  have hfold := foldlM_set?_places m start count (fun i => values.toList.getD i 0) k 0 m
  have hvalues : List.ofFn (fun i : Fin k => values.toList.getD (0 + i.val) 0) = values.toList := by
    apply List.ext_getElem <;> simp
  have hget : ∀ i : Fin k, values.toList.getD i.val 0 = values.get i := by
    intro i
    simp
    rfl
  rw [hvalues] at hfold
  simpa only [scatter?, Memory.transfer, Memory.toNat_place, Nat.zero_add, hget] using hfold

end Table
end Chip8
