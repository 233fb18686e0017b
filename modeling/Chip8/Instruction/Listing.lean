import Chip8.Argument
import Chip8.Instruction.Basic

/-!
Program listings.

`Instruction.text` is the assembler syntax of an instruction, and `lineText` that of any number: a
number that spells no instruction is listed as data. A listing (`rows`) has one row for each two
bytes of the program, and a program with a byte left over has no listing.
-/
namespace Chip8

/-- The name of a register. -/
def registerName (x : Nibble) : String :=
  "V" ++ Numeral.Hex.padded 1 x.toNat

/-- A byte after its sign for hexadecimal numbers. -/
def byteText (n : Byte) : String :=
  "$" ++ Numeral.Hex.padded 2 n.toNat

/-- An address after its sign for hexadecimal numbers. -/
def addressText (a : Address) : String :=
  "$" ++ Numeral.Hex.padded 3 a.toNat

/-- The name of an operation on two registers; copying is a load. -/
def Alu.mnemonic : Alu → String
  | .copy => "LD"
  | .or => "OR"
  | .and => "AND"
  | .xor => "XOR"
  | .add => "ADD"
  | .sub => "SUB"
  | .shiftRight => "SHR"
  | .subFrom => "SUBN"
  | .shiftLeft => "SHL"

def Condition.text : Condition → String
  | .equals x n => "SE " ++ registerName x ++ ", " ++ byteText n
  | .differs x n => "SNE " ++ registerName x ++ ", " ++ byteText n
  | .same x y => "SE " ++ registerName x ++ ", " ++ registerName y
  | .distinct x y => "SNE " ++ registerName x ++ ", " ++ registerName y
  | .keyDown x => "SKP " ++ registerName x
  | .keyUp x => "SKNP " ++ registerName x

def Instruction.text : Instruction → String
  | .machineCode a => "SYS " ++ addressText a
  | .clear => "CLS"
  | .ret => "RET"
  | .jump a => "JP " ++ addressText a
  | .call a => "CALL " ++ addressText a
  | .skip c => c.text
  | .load x n => "LD " ++ registerName x ++ ", " ++ byteText n
  | .add x n => "ADD " ++ registerName x ++ ", " ++ byteText n
  | .alu op x y => op.mnemonic ++ " " ++ registerName x ++ ", " ++ registerName y
  | .setIndex a => "LD I, " ++ addressText a
  | .jumpOffset a => "JP V0, " ++ addressText a
  | .random x n => "RND " ++ registerName x ++ ", " ++ byteText n
  | .draw x y n => "DRW " ++ registerName x ++ ", " ++ registerName y ++ ", " ++ toString n.toNat
  | .readDelay x => "LD " ++ registerName x ++ ", DT"
  | .waitKey x => "LD " ++ registerName x ++ ", K"
  | .setDelay x => "LD DT, " ++ registerName x
  | .setSound x => "LD ST, " ++ registerName x
  | .addIndex x => "ADD I, " ++ registerName x
  | .glyph x => "LD F, " ++ registerName x
  | .digits x => "LD B, " ++ registerName x
  | .store x => "LD [I], " ++ registerName x
  | .restore x => "LD " ++ registerName x ++ ", [I]"

namespace Listing

/-- The line of a number in a listing. -/
def lineText (n : Int) : String :=
  match Instruction.ofInt? n with
  | some i => i.text
  | none => "DW $" ++ Numeral.Hex.padded 4 n

structure Row where
  address : Int
  word : Word
  text : String
  deriving DecidableEq, Repr

/-- Whether a program of that size is made of whole instructions. -/
def evenSize (size : Nat) : Except Refusal Unit :=
  if size % 2 = 0 then .ok () else .error .oddProgram

/-- The words of a program, the high byte of each first. -/
def words : List Byte → Except Refusal (List Word)
  | [] => .ok []
  | [_] => .error .oddProgram
  | high :: low :: rest => (words rest).map (Word.ofBytes high low :: ·)

/-- The rows of words that start at `origin`. -/
def rowsFrom (origin : Int) : List Word → List Row
  | [] => []
  | w :: rest => ⟨origin, w, lineText w.toNat⟩ :: rowsFrom (origin + 2) rest

/-- The listing of a program whose first byte is at `origin`. -/
def rows (image : List Byte) (origin : Int) : Except Refusal (List Row) :=
  (words image).map (rowsFrom origin)

/-- The listing of a program whose first byte is where a host says, which may be between two
addresses. -/
def rowsOfValue (image : List Byte) (origin : Value) : Except Refusal (List (Number × Row)) := do
  (← rows image 0).mapM fun row => do
    return (← (← origin.number).add (.whole row.address), row)

theorem words_eq_error_iff {image : List Byte} {r : Refusal} :
    words image = .error r ↔ r = .oddProgram ∧ image.length % 2 = 1 := by
  fun_induction words image with
  | case1 => simp
  | case2 => simp [eq_comm]
  | case3 high low rest ih =>
    have hl : (high :: low :: rest).length % 2 = rest.length % 2 := by
      simp only [List.length_cons]
      omega
    rw [hl, ← ih]
    cases words rest <;> simp [Except.map]

end Listing
end Chip8
