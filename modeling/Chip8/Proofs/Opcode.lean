import Chip8.Instruction.Basic

/-!
The words of the instructions.

`encode` spells an instruction and `decode` reads a word. Two words have an instruction of their
own, `00E0` and `00EE`, so a call of machine code at those two addresses cannot be spelled; every
other instruction is read back from its word (`decode_encode`). Hence a word is data exactly if it
is the word of no instruction (`decode_eq_none_iff`).

An integer is read as its low sixteen bits are (`ofInt?_of_not_disguised`), unless it only ends in
one of the two words (`of_disguised`).
-/
namespace Chip8.Instruction

/-! ### The fields of a word put together -/

theorem family_withAddress (f : Nibble) (a : Address) : (withAddress f a).family = f := by
  apply BitVec.eq_of_toNat_eq
  have hw := Word.toNat_eq_family (withAddress f a)
  rw [toNat_withAddress] at hw
  have := (withAddress f a).nnn.isLt
  have := a.isLt
  omega

theorem nnn_withAddress (f : Nibble) (a : Address) : (withAddress f a).nnn = a := by
  apply BitVec.eq_of_toNat_eq
  have hw := Word.toNat_eq_family (withAddress f a)
  rw [toNat_withAddress, family_withAddress] at hw
  omega

theorem x_withAddress (f : Nibble) (a : Address) : (withAddress f a).x = a.extractLsb' 8 4 := by
  have hw := Word.toNat_nnn (withAddress f a)
  rw [nnn_withAddress] at hw
  have := (withAddress f a).nn.isLt
  have := (withAddress f a).x.isLt
  apply BitVec.eq_of_toNat_eq
  rw [BitVec.extractLsb'_toNat, Nat.shiftRight_eq_div_pow]
  omega

theorem fields_withByte (f x : Nibble) (n : Byte) :
    (withByte f x n).family = f ∧ (withByte f x n).x = x ∧ (withByte f x n).nn = n := by
  have hw := Word.toNat_eq_family (withByte f x n)
  have ha := Word.toNat_nnn (withByte f x n)
  rw [toNat_withByte] at hw
  have := (withByte f x n).nn.isLt
  have := (withByte f x n).x.isLt
  have := n.isLt
  have := x.isLt
  refine ⟨?_, ?_, ?_⟩ <;> apply BitVec.eq_of_toNat_eq <;> omega

theorem fields_withPair (f x y n : Nibble) :
    (withPair f x y n).family = f ∧ (withPair f x y n).x = x ∧ (withPair f x y n).y = y ∧
      (withPair f x y n).n = n := by
  have hw := Word.toNat_eq_family (withPair f x y n)
  have ha := Word.toNat_nnn (withPair f x y n)
  have hn := Word.toNat_nn (withPair f x y n)
  rw [toNat_withPair] at hw
  have := (withPair f x y n).n.isLt
  have := (withPair f x y n).y.isLt
  have := (withPair f x y n).x.isLt
  have := n.isLt
  have := y.isLt
  have := x.isLt
  refine ⟨?_, ?_, ?_, ?_⟩ <;> apply BitVec.eq_of_toNat_eq <;> omega

/-! ### Reading what was spelled -/

/-- Calls of machine code at the two addresses whose words clear the screen and return. -/
def Shadowed (i : Instruction) : Prop := i = .machineCode 0x0E0 ∨ i = .machineCode 0x0EE

theorem withAddress_ne {f : Nibble} {a : Address} {w : Word} (h : a ≠ w.nnn) :
    withAddress f a ≠ w := by
  intro hw
  apply h
  rw [← hw, nnn_withAddress]

theorem decode_machineCode {a : Address} (hc : a ≠ 0x0E0) (hr : a ≠ 0x0EE) :
    decode (encode (.machineCode a)) = some (.machineCode a) := by
  have hclear : withAddress 0x0 a ≠ 0x00E0 := withAddress_ne hc
  have hret : withAddress 0x0 a ≠ 0x00EE := withAddress_ne hr
  rw [encode, decode, family_withAddress, nnn_withAddress, if_neg hclear, if_neg hret]
  rfl

theorem ofCode?_code (op : Alu) : Alu.ofCode? op.code = some op := by
  cases op <;> rfl

theorem decode_encode {i : Instruction} (h : ¬ Shadowed i) : decode (encode i) = some i := by
  cases i with
  | machineCode a =>
    exact decode_machineCode (fun ha => h (.inl (by rw [ha]))) (fun ha => h (.inr (by rw [ha])))
  | clear | ret => rfl
  | jump a | call a | setIndex a | jumpOffset a =>
    simp [encode, decode, family_withAddress, nnn_withAddress]
  | alu op x y => simp [encode, decode, fields_withPair, ofCode?_code]
  | draw x y n => simp [encode, decode, fields_withPair]
  | skip c => cases c <;> simp [encode, decode, fields_withByte, fields_withPair]
  | _ => simp [encode, decode, fields_withByte]

/-- No word is read as an instruction that has no word of its own. -/
theorem not_shadowed_of_decode {w : Word} {i : Instruction} (h : decode w = some i) :
    ¬ Shadowed i := by
  have hw := encode_of_decode h
  rintro (rfl | rfl) <;> subst hw <;> revert h <;> decide

theorem decode_eq_some_iff {w : Word} {i : Instruction} :
    decode w = some i ↔ encode i = w ∧ ¬ Shadowed i := by
  constructor
  · intro h
    exact ⟨encode_of_decode h, not_shadowed_of_decode h⟩
  · rintro ⟨rfl, h⟩
    exact decode_encode h

/-- A word is data if it is the word of no instruction. -/
theorem decode_eq_none_iff {w : Word} : decode w = none ↔ ∀ i, encode i ≠ w := by
  constructor
  · rintro h i rfl
    by_cases hs : Shadowed i
    · rcases hs with rfl | rfl <;> revert h <;> decide
    · rw [decode_encode hs] at h
      cases h
  · intro h
    cases hd : decode w with
    | none => rfl
    | some i => exact absurd (encode_of_decode hd) (h i)

/-! ### Integers of any size -/

section Integers
variable {k : Int} {w : Word}

theorem toNat_of_ofInt (hw : BitVec.ofInt 16 k = w) : (w.toNat : Int) = k % 0x10000 := by
  rw [← hw, BitVec.toNat_ofInt]
  omega

theorem ofInt_eq_iff : BitVec.ofInt 16 k = w ↔ k % 0x10000 = w.toNat := by
  constructor
  · intro hw
    exact (toNat_of_ofInt hw).symm
  · intro hk
    apply BitVec.eq_of_toNat_eq
    rw [BitVec.toNat_ofInt]
    omega

/-- What an integer is looked up by are fields of its low sixteen bits. -/
theorem keys_of_ofInt (hw : BitVec.ofInt 16 k = w) :
    k / 0x1000 % 0x10 = w.family.toNat ∧ k % 0x10 = w.n.toNat ∧ k % 0x100 = w.nn.toNat := by
  have hk := toNat_of_ofInt hw
  have hfamily := Word.toNat_eq_family w
  have hnnn := Word.toNat_nnn w
  have hnn := Word.toNat_nn w
  have := w.nnn.isLt
  have := w.nn.isLt
  have := w.n.isLt
  have := w.family.isLt
  refine ⟨?_, ?_, ?_⟩ <;> omega

/-- An integer has the operands of its low sixteen bits. -/
theorem operands_of_ofInt (hw : BitVec.ofInt 16 k = w) :
    Operands.ofInt k = ⟨w.x, w.y, w.n, w.nn, w.nnn⟩ := by
  have hk := toNat_of_ofInt hw
  have hfamily := Word.toNat_eq_family w
  have hnnn := Word.toNat_nnn w
  have hnn := Word.toNat_nn w
  have := w.nnn.isLt
  have := w.nn.isLt
  have := w.n.isLt
  have := w.x.isLt
  have := w.y.isLt
  rw [Operands.ofInt, Operands.mk.injEq]
  refine ⟨?_, ?_, ?_, ?_, ?_⟩ <;> apply BitVec.eq_of_toNat_eq <;> rw [BitVec.toNat_ofInt] <;> omega

theorem lookup_operations (o : Operands) (n : Nibble) :
    (operations o).lookup (n.toNat : Int) = (Alu.ofCode? n).map fun op => .alu op o.x o.y := by
  unfold Alu.ofCode?
  split
  case h_10 =>
    rw [Option.map_none, List.lookup_eq_none_iff]
    simp [operations]
    grind
  all_goals
    next hn =>
      rw [hn]
      rfl

theorem lookup_keyTests (o : Operands) (nn : Byte) :
    (keyTests o).lookup (nn.toNat : Int) =
      match nn.toNat with
      | 0x9E => some (.skip (.keyDown o.x))
      | 0xA1 => some (.skip (.keyUp o.x))
      | _ => none := by
  split
  case h_3 =>
    rw [List.lookup_eq_none_iff]
    simp [keyTests]
    grind
  all_goals
    next hn =>
      rw [hn]
      rfl

theorem lookup_others (o : Operands) (nn : Byte) :
    (others o).lookup (nn.toNat : Int) =
      match nn.toNat with
      | 0x07 => some (.readDelay o.x)
      | 0x0A => some (.waitKey o.x)
      | 0x15 => some (.setDelay o.x)
      | 0x18 => some (.setSound o.x)
      | 0x1E => some (.addIndex o.x)
      | 0x29 => some (.glyph o.x)
      | 0x33 => some (.digits o.x)
      | 0x55 => some (.store o.x)
      | 0x65 => some (.restore o.x)
      | _ => none := by
  split
  case h_10 =>
    rw [List.lookup_eq_none_iff]
    simp [others]
    grind
  all_goals
    next hn =>
      rw [hn]
      rfl

theorem cast_toNat_eq_zero_iff (n : Nibble) : (n.toNat : Int) = 0 ↔ n = 0 := by
  rw [← BitVec.toNat_inj]
  exact Int.natCast_eq_zero

/-- Outside of family zero an integer is read as its low sixteen bits. -/
theorem ofInt?_of_family (hw : BitVec.ofInt 16 k = w) (h : w.family ≠ 0) :
    ofInt? k = decode w := by
  obtain ⟨hfamily, hn, hnn⟩ := keys_of_ofInt hw
  rw [ofInt?, operands_of_ofInt hw, hfamily, hn, hnn, lookup_operations, lookup_keyTests,
    lookup_others]
  simp only [cast_toNat_eq_zero_iff w.n]
  -- by the families, in the order of `decode`
  symm
  unfold decode
  split
  case h_1 hf => exact absurd (BitVec.eq_of_toNat_eq hf) h
  case h_16 =>
    have hf : w.family.toNat = 0xF := by
      have := w.family.isLt
      grind
    rw [hf]
    rfl
  all_goals
    next hf =>
      rw [hf]
      rfl

theorem ofInt?_of_family_zero (hw : BitVec.ofInt 16 k = w) (h : w.family = 0) :
    ofInt? k =
      some (if k = 0x00E0 then .clear else if k = 0x00EE then .ret else .machineCode w.nnn) := by
  rw [ofInt?, operands_of_ofInt hw, (keys_of_ofInt hw).1, h]
  rfl

theorem decode_of_family_zero (h : w.family = 0) :
    decode w =
      some (if w = 0x00E0 then .clear else if w = 0x00EE then .ret else .machineCode w.nnn) := by
  rw [decode, h]
  rfl

/-- An integer of more than sixteen bits whose low sixteen bits spell one of the two instructions
that have a word of their own. -/
def Disguised (k : Int) : Prop :=
  (k < 0 ∨ 0xFFFF < k) ∧ (k % 0x10000 = 0x00E0 ∨ k % 0x10000 = 0x00EE)

theorem ofInt?_of_not_disguised (hw : BitVec.ofInt 16 k = w) (h : ¬ Disguised k) :
    ofInt? k = decode w := by
  by_cases hf : w.family = 0
  case neg => exact ofInt?_of_family hw hf
  rw [Disguised] at h
  have hk := toNat_of_ofInt hw
  have hclear : w = 0x00E0 ↔ k = 0x00E0 := by
    rw [← BitVec.toNat_inj]
    show w.toNat = 0xE0 ↔ k = 0xE0
    omega
  have hret : w = 0x00EE ↔ k = 0x00EE := by
    rw [← BitVec.toNat_inj]
    show w.toNat = 0xEE ↔ k = 0xEE
    omega
  simp only [ofInt?_of_family_zero hw hf, decode_of_family_zero hf, hclear, hret]

/-- A number of sixteen bits is read as its word. -/
theorem ofInt?_toNat (w : Word) : ofInt? w.toNat = decode w := by
  apply ofInt?_of_not_disguised
  · rw [BitVec.ofInt_natCast, BitVec.ofNat_toNat, BitVec.setWidth_eq]
  · intro h
    have := h.1
    have := w.isLt
    omega

theorem of_disguised (hw : BitVec.ofInt 16 k = w) (h : Disguised k) :
    decode w = some (if k % 0x10000 = 0x00E0 then .clear else .ret) ∧
      ofInt? k = some (.machineCode w.nnn) := by
  obtain ⟨hk, hlow | hlow⟩ := h
  · have hclear : w = 0x00E0 := hw.symm.trans (ofInt_eq_iff.2 hlow)
    subst hclear
    rw [if_pos hlow, ofInt?_of_family_zero hw rfl, if_neg (by omega), if_neg (by omega)]
    exact ⟨rfl, rfl⟩
  · have hret : w = 0x00EE := hw.symm.trans (ofInt_eq_iff.2 hlow)
    subst hret
    rw [if_neg (by omega), ofInt?_of_family_zero hw rfl, if_neg (by omega), if_neg (by omega)]
    exact ⟨rfl, rfl⟩

end Integers
end Chip8.Instruction
