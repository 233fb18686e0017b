import Chip8.Instruction.Listing
import Chip8.Text.Integer
import Chip8.Proofs.Opcode

/-!
Listings read back.

A line of a listing is a mnemonic and its operands (`Line`), and each operand says by its first
character, and a numeral by its width, what kind it is (`Operand.read?`). So a line is taken apart
again (`Line.read?_chars`), a mnemonic with its operands names one instruction
(`Line.instruction?_line`), and data stands under a mnemonic of its own. `Listing.word?` is the
assembler of one line. The main result `listing_lossless` says that it gives back the word of every
line, so that the text of a listing is assembled to the very program that was listed.
-/
namespace Chip8

/-- What stands first in a line. -/
inductive Mnemonic where
  | sys
  | cls
  | ret
  | jp
  | call
  | se
  | sne
  | ld
  | add
  | or
  | and
  | xor
  | sub
  | shr
  | subn
  | shl
  | rnd
  | drw
  | skp
  | sknp
  | dw
  deriving DecidableEq, Repr

/-- An operand in a line. -/
inductive Operand where
  | register (x : Nibble)
  | byte (n : Byte)
  | address (a : Address)
  | data (w : Word)
  /-- The number of rows of a sprite, the one number that is written in decimal. -/
  | height (n : Nibble)
  | index
  /-- The memory that `I` points to. -/
  | atIndex
  | delay
  | sound
  | key
  | glyph
  | digits
  deriving DecidableEq, Repr

/-- A line of a listing in its parts. -/
structure Line where
  name : Mnemonic
  operands : List Operand
  deriving DecidableEq, Repr

/-- Reading what was written element by element gives the list that was written. -/
theorem mapM_map_inverse {α β : Type} {write : α → β} {read? : β → Option α}
    (h : ∀ a, read? (write a) = some a) (as : List α) : (as.map write).mapM read? = some as := by
  induction as with
  | nil => rfl
  | cons a rest ih => simp [h, ih]

/-! ### Numbers of a fixed width -/

/-- The word of `bits` bits that a number fits. -/
def narrow? (bits n : Nat) : Option (BitVec bits) :=
  let w := BitVec.ofNat bits n
  if w.toNat = n then some w else none

/-- The word of `bits` bits that hexadecimal digits write, four bits each. -/
def hex? (bits : Nat) (ds : List Char) : Option (BitVec bits) :=
  if 4 * ds.length = bits then (Numeral.Hex.value? ds).bind (narrow? bits) else none

theorem narrow?_toNat {bits : Nat} (w : BitVec bits) : narrow? bits w.toNat = some w := by
  have hw : BitVec.ofNat bits w.toNat = w := by rw [BitVec.ofNat_toNat, BitVec.setWidth_eq]
  rw [narrow?, hw, if_pos rfl]

theorem length_padded_toNat {bits width : Nat} (hb : 4 * width = bits) (hw : 0 < width)
    (w : BitVec bits) : (Numeral.Hex.padded width w.toNat).toList.length = width := by
  apply Numeral.Hex.length_padded hw
  have hpow : Nat.pow 16 width = 2 ^ bits := by rw [← hb, Nat.pow_mul]; rfl
  rw [hpow]
  exact w.isLt

theorem hex?_padded {bits width : Nat} (hb : 4 * width = bits) (hw : 0 < width) (w : BitVec bits) :
    hex? bits (Numeral.Hex.padded width w.toNat).toList = some w := by
  rw [hex?, length_padded_toNat hb hw, if_pos hb, Numeral.Hex.value?_padded, Option.bind_some,
    narrow?_toNat]

theorem comma_not_mem_padded (width n : Nat) : ',' ∉ (Numeral.Hex.padded width n).toList :=
  Numeral.Hex.not_mem_of_value? (Numeral.Hex.value?_padded width n) rfl

/-! ### Mnemonics -/

namespace Mnemonic

def text : Mnemonic → String
  | .sys => "SYS"
  | .cls => "CLS"
  | .ret => "RET"
  | .jp => "JP"
  | .call => "CALL"
  | .se => "SE"
  | .sne => "SNE"
  | .ld => "LD"
  | .add => "ADD"
  | .or => "OR"
  | .and => "AND"
  | .xor => "XOR"
  | .sub => "SUB"
  | .shr => "SHR"
  | .subn => "SUBN"
  | .shl => "SHL"
  | .rnd => "RND"
  | .drw => "DRW"
  | .skp => "SKP"
  | .sknp => "SKNP"
  | .dw => "DW"

def all : List Mnemonic :=
  [.sys, .cls, .ret, .jp, .call, .se, .sne, .ld, .add, .or, .and, .xor, .sub, .shr, .subn, .shl, .rnd,
    .drw, .skp, .sknp, .dw]

/-- The mnemonic that characters spell. -/
def read? (cs : List Char) : Option Mnemonic :=
  all.find? fun m => m.text.toList = cs

theorem read?_text (m : Mnemonic) : read? m.text.toList = some m := by
  cases m <;> rfl

theorem all_not_blank (m : Mnemonic) : m.text.toList.all (· ≠ ' ') = true := by
  cases m <;> rfl

theorem not_blank (m : Mnemonic) : ∀ c ∈ m.text.toList, decide (c ≠ ' ') = true :=
  List.all_eq_true.1 m.all_not_blank

end Mnemonic

/-! ### Operands -/

namespace Operand

def text : Operand → String
  | .register x => registerName x
  | .byte n => byteText n
  | .address a => addressText a
  | .data w => "$" ++ Numeral.Hex.padded 4 w.toNat
  | .height n => toString n.toNat
  | .index => "I"
  | .atIndex => "[I]"
  | .delay => "DT"
  | .sound => "ST"
  | .key => "K"
  | .glyph => "F"
  | .digits => "B"

/-- The operand that characters spell. -/
def read? : List Char → Option Operand
  | ['I'] => some .index
  | ['[', 'I', ']'] => some .atIndex
  | ['D', 'T'] => some .delay
  | ['S', 'T'] => some .sound
  | ['K'] => some .key
  | ['F'] => some .glyph
  | ['B'] => some .digits
  | 'V' :: ds => (hex? 4 ds).map .register
  | '$' :: ds =>
    match ds.length with
    | 2 => (hex? 8 ds).map .byte
    | 3 => (hex? 12 ds).map .address
    | 4 => (hex? 16 ds).map .data
    | _ => none
  | ds => ((Text.digits? ds).bind (narrow? 4)).map .height

theorem read?_height (n : Nibble) :
    read? (Operand.height n).text.toList = some (.height n) ∧ ',' ∉ (Operand.height n).text.toList := by
  revert n
  decide

theorem read?_text (o : Operand) : read? o.text.toList = some o := by
  cases o with
  | register x => simp [text, registerName, read?, hex?_padded]
  | byte n => simp [text, byteText, read?, length_padded_toNat, hex?_padded]
  | address a => simp [text, addressText, read?, length_padded_toNat, hex?_padded]
  | data w => simp [text, read?, length_padded_toNat, hex?_padded]
  | height n => exact (read?_height n).1
  | _ => rfl

theorem comma_not_mem_text (o : Operand) : ',' ∉ o.text.toList := by
  cases o with
  | register x => simp [text, registerName, comma_not_mem_padded]
  | byte n => simp [text, byteText, comma_not_mem_padded]
  | address a => simp [text, addressText, comma_not_mem_padded]
  | data w => simp [text, comma_not_mem_padded]
  | height n => exact (read?_height n).2
  | _ => decide

end Operand

/-! ### Lines -/

namespace Line

/-- The characters of operands. Commas stand between them, and a blank in front of each. -/
def operandChars (os : List Operand) : List Char :=
  [','].intercalate (os.map fun o => ' ' :: o.text.toList)

/-- The characters of a line. -/
def chars (l : Line) : List Char :=
  l.name.text.toList ++ operandChars l.operands

/-- The operand after a blank. -/
def operand? : List Char → Option Operand
  | ' ' :: cs => Operand.read? cs
  | _ => none

/-- The operands after a mnemonic. -/
def operands? (cs : List Char) : Option (List Operand) :=
  if cs = [] then some [] else (cs.splitOn ',').mapM operand?

/-- The line that characters spell. -/
def read? (cs : List Char) : Option Line := do
  let name ← Mnemonic.read? (cs.takeWhile (· ≠ ' '))
  let operands ← operands? (cs.dropWhile (· ≠ ' '))
  return ⟨name, operands⟩

@[simp] theorem operandChars_nil : operandChars [] = [] := rfl

@[simp] theorem operandChars_singleton (o : Operand) :
    operandChars [o] = ' ' :: o.text.toList :=
  List.intercalate_singleton

@[simp] theorem operandChars_cons_cons (o o' : Operand) (rest : List Operand) :
    operandChars (o :: o' :: rest) = ' ' :: o.text.toList ++ ',' :: operandChars (o' :: rest) := by
  simp [operandChars, List.intercalate_cons_cons]

theorem operandChars_cons (o : Operand) (rest : List Operand) :
    ∃ cs, operandChars (o :: rest) = ' ' :: cs := by
  cases rest with
  | nil => exact ⟨_, operandChars_singleton o⟩
  | cons o' rest => exact ⟨_, operandChars_cons_cons o o' rest⟩

theorem operands?_operandChars (os : List Operand) : operands? (operandChars os) = some os := by
  cases os with
  | nil => rfl
  | cons o rest =>
    -- every comma stands between two operands, and a list of operands is not empty
    have hne : operandChars (o :: rest) ≠ [] := by
      obtain ⟨cs, hcs⟩ := operandChars_cons o rest
      rw [hcs]
      exact List.cons_ne_nil _ _
    have hcomma : ∀ cs ∈ (o :: rest).map fun o => ' ' :: o.text.toList, ',' ∉ cs := by
      intro cs hcs
      obtain ⟨o, _, rfl⟩ := List.mem_map.1 hcs
      rw [List.mem_cons, not_or]
      exact ⟨by decide, o.comma_not_mem_text⟩
    have hread : ∀ o : Operand, operand? (' ' :: o.text.toList) = some o := Operand.read?_text
    rw [operands?, if_neg hne, operandChars, List.splitOn_intercalate _ hcomma (List.cons_ne_nil _ _)]
    exact mapM_map_inverse hread _

/-- A mnemonic ends at the first blank. -/
theorem takeWhile_chars (l : Line) : l.chars.takeWhile (· ≠ ' ') = l.name.text.toList := by
  rw [chars, List.takeWhile_append_of_pos l.name.not_blank]
  cases h : l.operands with
  | nil => exact List.append_nil _
  | cons o rest =>
    obtain ⟨cs, hcs⟩ := operandChars_cons o rest
    rw [hcs]
    exact List.append_nil _

/-- The operands begin at the first blank. -/
theorem dropWhile_chars (l : Line) : l.chars.dropWhile (· ≠ ' ') = operandChars l.operands := by
  have h : l.chars.takeWhile (· ≠ ' ') ++ l.chars.dropWhile (· ≠ ' ') = l.chars :=
    List.takeWhile_append_dropWhile
  rw [takeWhile_chars] at h
  exact List.append_cancel_left h

/-- A line is spelled by its characters. -/
theorem read?_chars (l : Line) : read? l.chars = some l := by
  rw [read?, takeWhile_chars, dropWhile_chars, Mnemonic.read?_text, operands?_operandChars]
  rfl

end Line

/-! ### Instructions and data as lines -/

/-- The mnemonic of an operation on two registers. -/
def Alu.name : Alu → Mnemonic
  | .copy => .ld
  | .or => .or
  | .and => .and
  | .xor => .xor
  | .add => .add
  | .sub => .sub
  | .shiftRight => .shr
  | .subFrom => .subn
  | .shiftLeft => .shl

def Condition.line : Condition → Line
  | .equals x n => ⟨.se, [.register x, .byte n]⟩
  | .differs x n => ⟨.sne, [.register x, .byte n]⟩
  | .same x y => ⟨.se, [.register x, .register y]⟩
  | .distinct x y => ⟨.sne, [.register x, .register y]⟩
  | .keyDown x => ⟨.skp, [.register x]⟩
  | .keyUp x => ⟨.sknp, [.register x]⟩

/-- The line of an instruction. -/
def Instruction.line : Instruction → Line
  | .machineCode a => ⟨.sys, [.address a]⟩
  | .clear => ⟨.cls, []⟩
  | .ret => ⟨.ret, []⟩
  | .jump a => ⟨.jp, [.address a]⟩
  | .call a => ⟨.call, [.address a]⟩
  | .skip c => c.line
  | .load x n => ⟨.ld, [.register x, .byte n]⟩
  | .add x n => ⟨.add, [.register x, .byte n]⟩
  | .alu op x y => ⟨op.name, [.register x, .register y]⟩
  | .setIndex a => ⟨.ld, [.index, .address a]⟩
  | .jumpOffset a => ⟨.jp, [.register 0, .address a]⟩
  | .random x n => ⟨.rnd, [.register x, .byte n]⟩
  | .draw x y n => ⟨.drw, [.register x, .register y, .height n]⟩
  | .readDelay x => ⟨.ld, [.register x, .delay]⟩
  | .waitKey x => ⟨.ld, [.register x, .key]⟩
  | .setDelay x => ⟨.ld, [.delay, .register x]⟩
  | .setSound x => ⟨.ld, [.sound, .register x]⟩
  | .addIndex x => ⟨.add, [.index, .register x]⟩
  | .glyph x => ⟨.ld, [.glyph, .register x]⟩
  | .digits x => ⟨.ld, [.digits, .register x]⟩
  | .store x => ⟨.ld, [.atIndex, .register x]⟩
  | .restore x => ⟨.ld, [.register x, .atIndex]⟩

/-- The line of a word in a listing. -/
def Word.line (w : Word) : Line :=
  match Instruction.decode w with
  | some i => i.line
  | none => ⟨.dw, [.data w]⟩

/-- The register that a jump with an offset is written with. -/
theorem registerName_zero : registerName 0#4 = "V0" := by
  simp [registerName, Numeral.Hex.padded, Numeral.Hex.digits_of_lt, Numeral.Hex.digit]

theorem Alu.mnemonic_eq_text (op : Alu) : op.mnemonic = op.name.text := by
  cases op <;> rfl

theorem Condition.chars_line (c : Condition) : c.line.chars = c.text.toList := by
  cases c <;> simp [line, text, Line.chars, Operand.text, Mnemonic.text]

theorem Instruction.chars_line (i : Instruction) : i.line.chars = i.text.toList := by
  cases i with
  | skip c => exact c.chars_line
  | alu op x y => simp [line, text, Line.chars, Operand.text, Alu.mnemonic_eq_text]
  | jumpOffset a => simp [line, text, Line.chars, Operand.text, Mnemonic.text, registerName_zero]
  | _ => simp [line, text, Line.chars, Operand.text, Mnemonic.text]

theorem Listing.lineText_of_decode {w : Word} {i : Instruction} (h : Instruction.decode w = some i) :
    lineText w.toNat = i.text := by
  rw [lineText, Instruction.ofInt?_toNat, h]

theorem Listing.lineText_of_data {w : Word} (h : Instruction.decode w = none) :
    lineText w.toNat = "DW $" ++ Numeral.Hex.padded 4 w.toNat := by
  rw [lineText, Instruction.ofInt?_toNat, h]

/-- A listing shows the line of each word. -/
theorem Word.chars_line (w : Word) : w.line.chars = (Listing.lineText w.toNat).toList := by
  rw [line]
  cases h : Instruction.decode w with
  | some i => rw [Listing.lineText_of_decode h]; exact i.chars_line
  | none => simp [Listing.lineText_of_data h, Line.chars, Operand.text, Mnemonic.text]

/-! ### The assembler -/

/-- The instruction that a line names. -/
def Line.instruction? (l : Line) : Option Instruction :=
  match l.name, l.operands with
  | .sys, [.address a] => some (.machineCode a)
  | .cls, [] => some .clear
  | .ret, [] => some .ret
  | .jp, [.address a] => some (.jump a)
  | .jp, [.register x, .address a] => if x = 0 then some (.jumpOffset a) else none
  | .call, [.address a] => some (.call a)
  | .se, [.register x, .byte n] => some (.skip (.equals x n))
  | .se, [.register x, .register y] => some (.skip (.same x y))
  | .sne, [.register x, .byte n] => some (.skip (.differs x n))
  | .sne, [.register x, .register y] => some (.skip (.distinct x y))
  | .skp, [.register x] => some (.skip (.keyDown x))
  | .sknp, [.register x] => some (.skip (.keyUp x))
  | .ld, [.register x, .byte n] => some (.load x n)
  | .ld, [.register x, .register y] => some (.alu .copy x y)
  | .ld, [.register x, .delay] => some (.readDelay x)
  | .ld, [.register x, .key] => some (.waitKey x)
  | .ld, [.register x, .atIndex] => some (.restore x)
  | .ld, [.index, .address a] => some (.setIndex a)
  | .ld, [.delay, .register x] => some (.setDelay x)
  | .ld, [.sound, .register x] => some (.setSound x)
  | .ld, [.glyph, .register x] => some (.glyph x)
  | .ld, [.digits, .register x] => some (.digits x)
  | .ld, [.atIndex, .register x] => some (.store x)
  | .add, [.register x, .byte n] => some (.add x n)
  | .add, [.register x, .register y] => some (.alu .add x y)
  | .add, [.index, .register x] => some (.addIndex x)
  | .or, [.register x, .register y] => some (.alu .or x y)
  | .and, [.register x, .register y] => some (.alu .and x y)
  | .xor, [.register x, .register y] => some (.alu .xor x y)
  | .sub, [.register x, .register y] => some (.alu .sub x y)
  | .shr, [.register x, .register y] => some (.alu .shiftRight x y)
  | .subn, [.register x, .register y] => some (.alu .subFrom x y)
  | .shl, [.register x, .register y] => some (.alu .shiftLeft x y)
  | .rnd, [.register x, .byte n] => some (.random x n)
  | .drw, [.register x, .register y, .height n] => some (.draw x y n)
  | _, _ => none

/-- The word that a line gives as data. -/
def Line.data? : Line → Option Word
  | ⟨.dw, [.data w]⟩ => some w
  | _ => none

/-- The word of a line. -/
def Line.word? (l : Line) : Option Word :=
  (l.instruction?.map Instruction.encode).or l.data?

theorem Line.instruction?_line (i : Instruction) : i.line.instruction? = some i := by
  cases i with
  | skip c => cases c <;> rfl
  | alu op x y => cases op <;> rfl
  | _ => rfl

theorem Line.word?_line (w : Word) : w.line.word? = some w := by
  rw [Word.line]
  cases h : Instruction.decode w with
  | some i => rw [word?, instruction?_line, Option.map_some, Instruction.encode_of_decode h]; rfl
  | none => rfl

/-- The two bytes of a word, the high one first. -/
def Word.bytes (w : Word) : List Byte := [w.extractLsb' 8 8, w.nn]

namespace Listing

/-- The word of a line of text. -/
def word? (text : String) : Option Word :=
  (Line.read? text.toList).bind Line.word?

/-- The bytes of lines of text. -/
def assemble? (texts : List String) : Option (List Byte) :=
  (texts.mapM word?).map fun ws => ws.flatMap Word.bytes

/-- The assembler gives back the word of every line. -/
theorem word?_lineText (w : Word) : word? (lineText w.toNat) = some w := by
  rw [word?, ← Word.chars_line, Line.read?_chars, Option.bind_some, Line.word?_line]

theorem texts_rowsFrom (origin : Int) (ws : List Word) :
    (rowsFrom origin ws).map Row.text = ws.map fun w => lineText w.toNat := by
  induction ws generalizing origin with
  | nil => rfl
  | cons w rest ih => rw [rowsFrom, List.map_cons, ih, List.map_cons]

theorem bytes_ofBytes (high low : Byte) : (Word.ofBytes high low).bytes = [high, low] := by
  have hw := Word.toNat_ofBytes high low
  have := low.isLt
  have hhigh : (Word.ofBytes high low).extractLsb' 8 8 = high := by
    apply BitVec.eq_of_toNat_eq
    rw [BitVec.extractLsb'_toNat, Nat.shiftRight_eq_div_pow, hw]
    omega
  have hlow : (Word.ofBytes high low).nn = low := by
    apply BitVec.eq_of_toNat_eq
    rw [Word.nn, BitVec.extractLsb'_toNat, Nat.shiftRight_eq_div_pow, hw]
    omega
  rw [Word.bytes, hhigh, hlow]

theorem words_cons_cons_eq_ok_iff {high low : Byte} {rest : List Byte} {ws : List Word} :
    words (high :: low :: rest) = .ok ws ↔
      ∃ vs, words rest = .ok vs ∧ ws = Word.ofBytes high low :: vs := by
  rw [words]
  cases words rest with
  | error r => simp [Except.map]
  | ok vs => simp [Except.map, eq_comm]

/-- The words of a program hold its bytes. -/
theorem flatMap_bytes {image : List Byte} {ws : List Word} (h : words image = .ok ws) :
    ws.flatMap Word.bytes = image := by
  fun_induction words image generalizing ws with
  | case1 => cases h; rfl
  | case2 => cases h
  | case3 high low rest ih =>
    obtain ⟨vs, hrest, rfl⟩ := words_cons_cons_eq_ok_iff.1 h
    rw [List.flatMap_cons, bytes_ofBytes, ih hrest]
    rfl

theorem words_of_even {image : List Byte} (h : image.length % 2 = 0) :
    ∃ ws, words image = .ok ws := by
  cases hw : words image with
  | error r =>
    have := (words_eq_error_iff.1 hw).2
    omega
  | ok ws => exact ⟨ws, rfl⟩

theorem rows_eq_ok_iff {image : List Byte} {origin : Int} {listed : List Row} :
    rows image origin = .ok listed ↔ ∃ ws, words image = .ok ws ∧ listed = rowsFrom origin ws := by
  rw [rows]
  cases words image with
  | error r => simp [Except.map]
  | ok ws => simp [Except.map, eq_comm]

/-- The text of a listing is assembled to the program. -/
theorem assemble?_of_rows {image : List Byte} {origin : Int} {listed : List Row}
    (h : rows image origin = .ok listed) : assemble? (listed.map Row.text) = some image := by
  obtain ⟨ws, hw, rfl⟩ := rows_eq_ok_iff.1 h
  rw [assemble?, texts_rowsFrom, mapM_map_inverse word?_lineText, Option.map_some, flatMap_bytes hw]

end Listing

/-- **Lossless listings.** The line of every word is assembled to the word, every program of whole
words is assembled from its listing alone, and different programs never have the same listing. -/
theorem listing_lossless :
    (∀ w : Word, Listing.word? (Listing.lineText w.toNat) = some w) ∧
    (∀ image : List Byte, image.length % 2 = 0 → ∀ origin : Int, ∃ listed,
      Listing.rows image origin = .ok listed ∧
        Listing.assemble? (listed.map Listing.Row.text) = some image) ∧
    (∀ (image other : List Byte) (origin origin' : Int) (listed listed' : List Listing.Row),
      image ≠ other → Listing.rows image origin = .ok listed →
      Listing.rows other origin' = .ok listed' →
      listed.map Listing.Row.text ≠ listed'.map Listing.Row.text) := by
  refine ⟨Listing.word?_lineText, ?_, ?_⟩
  · intro image heven origin
    obtain ⟨ws, hw⟩ := Listing.words_of_even heven
    have hrows : Listing.rows image origin = .ok (Listing.rowsFrom origin ws) :=
      Listing.rows_eq_ok_iff.2 ⟨ws, hw, rfl⟩
    exact ⟨Listing.rowsFrom origin ws, hrows, Listing.assemble?_of_rows hrows⟩
  · intro image other origin origin' listed listed' hne hrows hrows' htext
    have hback := Listing.assemble?_of_rows hrows
    rw [htext, Listing.assemble?_of_rows hrows'] at hback
    exact hne (Option.some.inj hback).symm

/-- Lines that share mnemonics or operands with others: the screen cleared, machine code called, a
jump from `V0`, the digits of `V2` stored, and `5121` as data. -/
theorem listing_lossless_shared : ∃ listed listed',
    Listing.rows [0x00, 0xE0, 0x00, 0xE1, 0xB3, 0x00, 0xF2, 0x33, 0x51, 0x21] 0x200 = .ok listed ∧
      listed.map Listing.Row.text = ["CLS", "SYS $0E1", "JP V0, $300", "LD B, V2", "DW $5121"] ∧
      Listing.assemble? (listed.map Listing.Row.text) =
        some [0x00, 0xE0, 0x00, 0xE1, 0xB3, 0x00, 0xF2, 0x33, 0x51, 0x21] ∧
      Listing.rows [0x00, 0xE0, 0x00, 0xE1, 0xB3, 0x00, 0xF2, 0x33, 0x51, 0x20] 0 = .ok listed' ∧
      listed.map Listing.Row.text ≠ listed'.map Listing.Row.text := by
  obtain ⟨listed, hrows, hback⟩ := listing_lossless.2.1
    [0x00, 0xE0, 0x00, 0xE1, 0xB3, 0x00, 0xF2, 0x33, 0x51, 0x21] (by decide) 0x200
  obtain ⟨listed', hrows', -⟩ := listing_lossless.2.1
    [0x00, 0xE0, 0x00, 0xE1, 0xB3, 0x00, 0xF2, 0x33, 0x51, 0x20] (by decide) 0
  refine ⟨listed, listed', hrows, ?_, hback, hrows',
    listing_lossless.2.2 _ _ _ _ _ _ (by decide) hrows hrows'⟩
  cases hrows
  rw [Listing.texts_rowsFrom]
  change [0x00E0, 0x00E1, 0xB300, 0xF233, 0x5121].map (fun w : Word => Listing.lineText w.toNat) = _
  simp only [List.map]
  rw [Listing.lineText_of_decode (i := .clear) (by decide),
    Listing.lineText_of_decode (i := .machineCode 0x0E1) (by decide),
    Listing.lineText_of_decode (i := .jumpOffset 0x300) (by decide),
    Listing.lineText_of_decode (i := .digits 0x2) (by decide), Listing.lineText_of_data (by decide)]
  simp [Instruction.text, registerName, addressText, Numeral.Hex.padded, Numeral.Hex.digits_of_lt,
    Numeral.Hex.digits_of_le, Numeral.Hex.digit]

end Chip8
