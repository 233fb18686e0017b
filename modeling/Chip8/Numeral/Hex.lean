/-!
Hexadecimal numerals.

`digits` writes a natural number with upper-case digits and no leading zero, and `value?` reads
such digits back (`value?_digits`). `padded` fills a numeral with zeros to a least width; a minus
sign takes one of the places. A number that fits the width fills it exactly (`length_padded`) and is
read back from it (`value?_padded`).
-/
namespace Chip8.Numeral.Hex

/-- The digit of a value below sixteen. -/
def digit (d : Nat) : Char :=
  if d < 10 then Char.ofNat (48 + d) else Char.ofNat (55 + d)

/-- The value of an upper-case digit. -/
def digit? (c : Char) : Option Nat :=
  if 48 ≤ c.toNat ∧ c.toNat ≤ 57 then some (c.toNat - 48)
  else if 65 ≤ c.toNat ∧ c.toNat ≤ 70 then some (c.toNat - 55)
  else none

/-- The digits of a number, the leading one first; zero has one digit. -/
def digits (n : Nat) : List Char :=
  if n < 16 then [digit n] else digits (n / 16) ++ [digit (n % 16)]
termination_by n

/-- The number that a list of digits writes after a number already read. -/
def valueFrom? (acc : Nat) : List Char → Option Nat
  | [] => some acc
  | c :: rest => (digit? c).bind fun d => valueFrom? (16 * acc + d) rest

/-- The number that a list of digits writes. -/
def value? (cs : List Char) : Option Nat :=
  valueFrom? 0 cs

/-- A numeral of at least `width` characters, zeros first, the sign counted in the width. -/
def padded (width : Nat) (n : Int) : String :=
  let ds := digits n.natAbs
  if n < 0 then "-" ++ String.ofList (List.replicate (width - 1 - ds.length) '0' ++ ds)
  else String.ofList (List.replicate (width - ds.length) '0' ++ ds)

theorem digits_of_lt {n : Nat} (h : n < 16) : digits n = [digit n] := by
  rw [digits, if_pos h]

theorem digits_of_le {n : Nat} (h : 16 ≤ n) : digits n = digits (n / 16) ++ [digit (n % 16)] := by
  rw [digits, if_neg (Nat.not_lt.2 h)]

theorem digit?_digit {d : Nat} (h : d < 16) : digit? (digit d) = some d := by
  revert d
  decide

theorem valueFrom?_append (acc : Nat) (a b : List Char) :
    valueFrom? acc (a ++ b) = (valueFrom? acc a).bind fun v => valueFrom? v b := by
  induction a generalizing acc with
  | nil => rfl
  | cons c rest ih =>
    cases h : digit? c with
    | none => simp [valueFrom?, h]
    | some d => simp [valueFrom?, h, ih]

/-- Reading the digits of a number gives the number. -/
theorem value?_digits (n : Nat) : value? (digits n) = some n := by
  induction n using digits.induct with
  | case1 n h => simp [digits_of_lt h, value?, valueFrom?, digit?_digit h]
  | case2 n h ih =>
    unfold value? at ih ⊢
    rw [digits_of_le (Nat.not_lt.1 h), valueFrom?_append, ih]
    simp only [Option.bind_some, valueFrom?, digit?_digit (Nat.mod_lt n (by decide : 16 > 0))]
    exact congrArg some (Nat.div_add_mod n 16)

theorem length_digits_le {n width : Nat} (hw : 0 < width) (h : n < Nat.pow 16 width) :
    (digits n).length ≤ width := by
  induction n using digits.induct generalizing width with
  | case1 n hn => rw [digits_of_lt hn]; exact hw
  | case2 n hn ih =>
    obtain ⟨rest, rfl⟩ : ∃ rest, width = rest + 1 := ⟨width - 1, by omega⟩
    have hpow : Nat.pow 16 (rest + 1) = Nat.pow 16 rest * 16 := rfl
    have hrest : 0 < rest := by
      apply Nat.pos_of_ne_zero
      rintro rfl
      have hone : Nat.pow 16 0 = 1 := rfl
      omega
    have := ih hrest (by omega)
    rw [digits_of_le (Nat.not_lt.1 hn), List.length_append, List.length_singleton]
    omega

/-! ### Numerals of a fixed width -/

theorem toList_padded (width n : Nat) :
    (padded width n).toList = List.replicate (width - (digits n).length) '0' ++ digits n := by
  have hn : ¬ (n : Int) < 0 := by omega
  simp [padded, hn]

theorem length_padded {n width : Nat} (hw : 0 < width) (h : n < Nat.pow 16 width) :
    (padded width n).toList.length = width := by
  have := length_digits_le hw h
  rw [toList_padded, List.length_append, List.length_replicate]
  omega

/-- Zeros in front of a numeral add nothing to it. -/
theorem value?_zeros (count : Nat) (ds : List Char) :
    value? (List.replicate count '0' ++ ds) = value? ds := by
  induction count with
  | zero => rfl
  | succ count ih => exact ih

theorem value?_padded (width n : Nat) : value? (padded width n).toList = some n := by
  rw [toList_padded, value?_zeros, value?_digits]

/-- A numeral holds nothing but digits. -/
theorem not_mem_of_value? {ds : List Char} {n : Nat} {c : Char} (h : value? ds = some n)
    (hc : digit? c = none) : c ∉ ds := by
  unfold value? at h
  generalize 0 = acc at h
  induction ds generalizing acc with
  | nil => exact List.not_mem_nil
  | cons d rest ih =>
    obtain ⟨v, hd, hrest⟩ := Option.bind_eq_some_iff.1 h
    rw [List.mem_cons, not_or]
    refine ⟨?_, ih _ hrest⟩
    rintro rfl
    rw [hc] at hd
    cases hd

end Chip8.Numeral.Hex
