import Chip8.Proofs.Assembly
import Chip8.Proofs.FaultCondition
import Chip8.Proofs.Reach

/-!
Listings and machines.

A listing takes the words out of a program, and a machine fetches them from the memory it has loaded
the program into: row `i` holds the word that a fresh machine fetches at the address of the row
(`fetch_create`). The mnemonic of a row says in turn what becomes of its word: data and, unless a
dialect skips them, calls of machine code are the words that are no instruction to a machine
(`code_execute_iff`). The main result `listing_agrees` puts the two together.
-/
namespace Chip8

/-! ### How a line begins -/

namespace Line

/-- A mnemonic and a blank are what lines with operands begin with. -/
theorem begins_iff {l : Line} {m : Mnemonic} :
    m.text.toList ++ [' '] <+: l.chars ↔ l.name = m ∧ l.operands ≠ [] := by
  constructor
  · -- on either side the mnemonic is what stands before the first blank
    rintro ⟨rest, h⟩
    have hname := l.takeWhile_chars
    have hoperands := l.dropWhile_chars
    rw [← h, List.append_assoc, List.takeWhile_append_of_pos m.not_blank] at hname
    rw [← h, List.append_assoc, List.dropWhile_append_of_pos m.not_blank] at hoperands
    have htext : m.text.toList = l.name.text.toList := by
      rw [← hname]
      exact (List.append_nil _).symm
    refine ⟨?_, ?_⟩
    · have hread := Mnemonic.read?_text m
      rw [htext, Mnemonic.read?_text] at hread
      exact Option.some.inj hread
    · intro hnil
      rw [hnil] at hoperands
      exact List.cons_ne_nil _ _ hoperands
  · rintro ⟨rfl, hne⟩
    obtain ⟨o, rest, ho⟩ := List.exists_cons_of_ne_nil hne
    obtain ⟨cs, hcs⟩ := operandChars_cons o rest
    exact ⟨cs, by rw [chars, ho, hcs, List.append_assoc]; rfl⟩

end Line

theorem Instruction.name_line_ne_data (i : Instruction) : i.line.name ≠ .dw := by
  cases i with
  | skip c => cases c <;> simp [line, Condition.line]
  | alu op x y => cases op <;> simp [line, Alu.name]
  | _ => simp [line]

theorem Instruction.name_line_eq_sys_iff {i : Instruction} :
    i.line.name = .sys ↔ ∃ a, i = .machineCode a := by
  cases i with
  | skip c => cases c <;> simp [line, Condition.line]
  | alu op x y => cases op <;> simp [line, Alu.name]
  | _ => simp [line]

namespace Listing

/-- The line of a word is that of data if the word spells no instruction. -/
theorem begins_data_iff {w : Word} :
    "DW ".toList <+: (lineText w.toNat).toList ↔ Instruction.decode w = none := by
  have h := Line.begins_iff (l := w.line) (m := .dw)
  rw [Word.chars_line] at h
  refine h.trans ?_
  rw [Word.line]
  cases Instruction.decode w with
  | none => simp
  | some i => simp [i.name_line_ne_data]

/-- The line of a word is that of machine code if the word spells a call of it. -/
theorem begins_machineCode_iff {w : Word} :
    "SYS ".toList <+: (lineText w.toNat).toList ↔
      ∃ a, Instruction.decode w = some (.machineCode a) := by
  have h := Line.begins_iff (l := w.line) (m := .sys)
  rw [Word.chars_line] at h
  refine h.trans ?_
  rw [Word.line]
  cases Instruction.decode w with
  | none => simp
  | some i =>
    simp only [Instruction.name_line_eq_sys_iff, Option.some.injEq]
    constructor
    · exact fun h => h.1
    · rintro ⟨a, rfl⟩
      exact ⟨⟨a, rfl⟩, List.cons_ne_nil _ _⟩

end Listing

/-! ### Words that are no instruction to a machine -/

namespace State
variable {d : Dialect} {s : State} {w : Word}

theorem outcome_invalid_iff :
    (∃ u, s.outcome d w = .error (.invalidOpcode u)) ↔
      Instruction.decode w = none ∨
        d.skipsMachineCode = false ∧ ∃ a, Instruction.decode w = some (.machineCode a) := by
  cases hw : Instruction.decode w with
  | none => simp [outcome_of_data hw]
  | some i =>
    rw [outcome_of_decode hw]
    simp only [perform_eq_error_iff]
    cases i <;> simp [fault?]

/-- A word that is executed by a machine that runs leaves the record of an invalid word if it is
data, or calls machine code in a dialect that does not skip this. -/
theorem code_execute_iff (hf : s.fault.code = 0) (address : Word) :
    (s.execute d w address).fault.code = (Fault.invalidOpcode w).code ↔
      Instruction.decode w = none ∨
        d.skipsMachineCode = false ∧ ∃ a, Instruction.decode w = some (.machineCode a) := by
  rw [← outcome_invalid_iff (s := s)]
  cases ho : s.outcome d w with
  | error f =>
    rw [execute_of_error ho]
    cases f <;> simp [FaultRecord.of, Fault.code]
  | ok t =>
    rw [execute_of_ok ho (not_raised_iff.2 hf), fault_of_outcome ho, hf]
    simp [Fault.code]

end State

/-! ### The words of a program -/

namespace Listing

/-- A program has a word for each two bytes. -/
theorem length_words {image : List Byte} {ws : List Word} (h : words image = .ok ws) :
    ws.length = image.length / 2 := by
  fun_induction words image generalizing ws with
  | case1 => cases h; rfl
  | case2 => cases h
  | case3 high low rest ih =>
    obtain ⟨vs, hrest, rfl⟩ := words_cons_cons_eq_ok_iff.1 h
    have := ih hrest
    simp only [List.length_cons]
    omega

/-- Word `i` of a program is made of the bytes at twice `i`. -/
theorem getElem?_words {image : List Byte} {ws : List Word} (h : words image = .ok ws) {i : Nat}
    (hi : 2 * i + 1 < image.length) :
    ws[i]? = some (Word.ofBytes image[2 * i] image[2 * i + 1]) := by
  fun_induction words image generalizing ws i with
  | case1 => simp at hi
  | case2 => simp at hi
  | case3 high low rest ih =>
    obtain ⟨vs, hrest, rfl⟩ := words_cons_cons_eq_ok_iff.1 h
    cases i with
    | zero => rfl
    | succ i => exact ih hrest (by simp only [List.length_cons] at hi; omega)

theorem getElem?_rowsFrom (origin : Int) (ws : List Word) (i : Nat) :
    (rowsFrom origin ws)[i]? = ws[i]?.map fun w => ⟨origin + 2 * i, w, lineText w.toNat⟩ := by
  induction ws generalizing origin i with
  | nil => rfl
  | cons w rest ih =>
    cases i with
    | zero => simp [rowsFrom]
    | succ i =>
      rw [rowsFrom, List.getElem?_cons_succ, ih, List.getElem?_cons_succ]
      congr 1
      funext v
      congr 1
      omega

theorem length_rowsFrom (origin : Int) (ws : List Word) :
    (rowsFrom origin ws).length = ws.length := by
  induction ws generalizing origin with
  | nil => rfl
  | cons w rest ih => rw [rowsFrom, List.length_cons, ih, List.length_cons]

end Listing

/-- A fresh machine fetches the words of its program. -/
theorem Machine.fetch_create {d : Dialect} {seed : BitVec 64} {image : List Byte} {m : Machine}
    (h : create d seed image = .ok m) {i : Nat} (hi : 2 * i + 1 < image.length) :
    ({m.state with pc := BitVec.ofNat 16 (programStart + 2 * i)} : State).fetch.2 =
      Word.ofBytes image[2 * i] image[2 * i + 1] := by
  obtain ⟨s, hs, rfl⟩ := create_eq_ok_iff.1 h
  obtain ⟨hfits, rfl⟩ := boot_eq_ok_iff.1 hs
  have hmax : maxProgramSize = 3584 := rfl
  have hstart : programStart = 512 := rfl
  have hpc : (BitVec.ofNat 16 (programStart + 2 * i)).toNat = programStart + 2 * i := by
    rw [BitVec.toNat_ofNat]
    omega
  have hread (k : Nat) (hk : k < 2) :
      (Memory.fresh.load programStart image).read (Memory.place (programStart + 2 * i : Nat) k) =
        image[2 * i + k] := by
    have hplace : (Memory.place (programStart + 2 * i : Nat) k).toNat = programStart + (2 * i + k) := by
      rw [State.toNat_place_nat, memorySize]
      omega
    rw [Memory.read_load, hplace, if_pos (by omega), Nat.add_sub_cancel_left,
      List.getD_eq_getElem?_getD, List.getElem?_eq_getElem (by omega), Option.getD_some]
  rw [State.fetch, State.wordAt_of_lt (by rw [hpc]; omega), hpc]
  exact congr (congrArg Word.ofBytes (hread 0 (by decide))) (hread 1 (by decide))

/-- **A listing agrees with the machine.** Its rows have the words that the machine fetches, and the
lines of `DW`, and of `SYS` where machine code is not skipped, are those of invalid words. -/
theorem listing_agrees (d : Dialect) (seed : BitVec 64) (image : List Byte) :
    (image.length % 2 = 0 → image.length ≤ maxProgramSize → ∃ m listed,
      Machine.create d seed image = .ok m ∧ Listing.rows image programStart = .ok listed ∧
      listed.length = image.length / 2 ∧
      ∀ i < image.length / 2,
        let s : State := {m.state with pc := BitVec.ofNat 16 (programStart + 2 * i)}
        let w := s.fetch.2
        let text := Listing.lineText w.toNat
        listed[i]? = some ⟨programStart + 2 * i, w, text⟩ ∧
        ∀ (e : Dialect) (t : State) (address : Word), t.fault.code = 0 →
          let code := (t.execute e w address).fault.code
          (e.skipsMachineCode = true →
            ("DW ".toList <+: text.toList ↔ code = (Fault.invalidOpcode w).code)) ∧
          (e.skipsMachineCode = false →
            ("DW ".toList <+: text.toList ∨ "SYS ".toList <+: text.toList ↔
              code = (Fault.invalidOpcode w).code))) ∧
    (image.length % 2 = 1 → Listing.words image = .error .oddProgram ∧
      ∀ origin : Int, Listing.rows image origin = .error .oddProgram) := by
  constructor
  · intro heven hfits
    obtain ⟨m, hm⟩ := Machine.create_of_le d seed hfits
    obtain ⟨ws, hw⟩ := Listing.words_of_even heven
    have hrows : Listing.rows image programStart = .ok (Listing.rowsFrom programStart ws) :=
      Listing.rows_eq_ok_iff.2 ⟨ws, hw, rfl⟩
    refine ⟨m, Listing.rowsFrom programStart ws, hm, hrows, ?_, ?_⟩
    · rw [Listing.length_rowsFrom, Listing.length_words hw]
    · intro i hi s w text
      have hi : 2 * i + 1 < image.length := by omega
      -- the word in the listing and the word in memory are made of the same two bytes
      have hword : ws[i]? = some w := by
        rw [Listing.getElem?_words hw hi]
        exact congrArg some (Machine.fetch_create hm hi).symm
      refine ⟨by rw [Listing.getElem?_rowsFrom, hword]; rfl, ?_⟩
      intro e t address ht code
      have hcode := State.code_execute_iff (d := e) (w := w) ht address
      refine ⟨fun he => ?_, fun he => ?_⟩
      · rw [Listing.begins_data_iff, hcode, he]
        simp
      · rw [Listing.begins_data_iff, Listing.begins_machineCode_iff, hcode, he]
        simp
  · intro hodd
    have hwords := Listing.words_eq_error_iff.2 ⟨rfl, hodd⟩
    exact ⟨hwords, fun origin => by rw [Listing.rows, hwords]; rfl⟩

/-- A program that calls machine code and goes on with data, in a dialect that skips machine code
and in one that does not. A single byte has no listing. -/
theorem listing_agrees_data :
    let image : List Byte := [0x00, 0xE1, 0x51, 0x21]
    image.length % 2 = 0 ∧ image.length ≤ maxProgramSize ∧ ∃ listed,
      Listing.rows image programStart = .ok listed ∧
      listed[0]? = some ⟨0x200, 0x00E1, Listing.lineText 0x00E1⟩ ∧
      listed[1]? = some ⟨0x202, 0x5121, Listing.lineText 0x5121⟩ ∧
      (¬ "DW ".toList <+: (Listing.lineText 0x00E1).toList) ∧
      "SYS ".toList <+: (Listing.lineText 0x00E1).toList ∧
      "DW ".toList <+: (Listing.lineText 0x5121).toList ∧
      Listing.rows [0x21] 0x200 = .error .oddProgram := by
  intro image
  have heven : image.length % 2 = 0 := by decide
  have hfits : image.length ≤ maxProgramSize := by decide
  obtain ⟨m, listed, hm, hrows, -, hlisted⟩ := (listing_agrees .modern 7 image).1 heven hfits
  have hodd := ((listing_agrees .modern 7 [0x21]).2 (by decide)).2 0x200
  have hsys := hlisted 0 (by decide)
  have hdata := hlisted 1 (by decide)
  have hfirst : Word.ofBytes image[0] image[1] = 0x00E1 := by decide
  have hsecond : Word.ofBytes image[2] image[3] = 0x5121 := by decide
  simp only [Machine.fetch_create hm (i := 0) (by decide), Nat.mul_zero, Nat.zero_add, hfirst] at hsys
  simp only [Machine.fetch_create hm (i := 1) (by decide), Nat.mul_one, hsecond] at hdata
  -- the words of the two rows, executed by a machine that has just been made
  let t := State.fresh (Random.Key.ofSeed 7)
  let skipping : Dialect := {Dialect.modern with skipsMachineCode := true}
  have hskipped := (hsys.2 skipping t 0x200 rfl).1 rfl
  have hrefused := (hsys.2 .modern t 0x200 rfl).2 rfl
  have hinvalid := (hdata.2 skipping t 0x202 rfl).1 rfl
  have hno : ¬ "DW ".toList <+: (Listing.lineText 0x00E1).toList :=
    fun h => absurd (hskipped.1 h) (by decide +kernel)
  exact ⟨heven, hfits, listed, hrows, hsys.1, hdata.1, hno,
    (hrefused.2 (by decide +kernel)).resolve_left hno, hinvalid.2 (by decide +kernel), hodd⟩

end Chip8
