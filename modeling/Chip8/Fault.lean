import Chip8.Numeral.Hex
import Chip8.Word

/-!
What goes wrong, inside the machine and around it.

A `Fault` is the cause for which an instruction has no effect. A stopped machine keeps it as a
`FaultRecord`, three plain numbers, with the address of the instruction. `Error.ofRecord` turns
the numbers back into an `Error`, which is what a host is told (`ofRecord_code`).
-/
namespace Chip8

/-- Return addresses that fit the stack. -/
def stackDepth : Nat := 16

/-- Bytes of memory. -/
def memorySize : Nat := 4096

/-- The first address of a program; what lies below belongs to the machine. -/
def programStart : Nat := 0x200

/-- The bytes from there to the end of memory. -/
def maxProgramSize : Nat := memorySize - programStart

inductive Fault where
  | invalidOpcode (word : Word)
  | stackOverflow
  | stackUnderflow
  /-- A write below the program area; `address` is the first one. -/
  | protectedWrite (address : Address)
  deriving DecidableEq, Repr

namespace Fault

/-- The number of the kind of fault; zero is no fault. -/
def code : Fault → Int
  | .invalidOpcode _ => 1
  | .stackOverflow => 2
  | .stackUnderflow => 3
  | .protectedWrite _ => 4

/-- The one number recorded beside the kind. -/
def value : Fault → Int
  | .invalidOpcode w => w.toNat
  | .stackOverflow => stackDepth
  | .stackUnderflow => 0
  | .protectedWrite a => a.toNat

theorem code_ne_zero (f : Fault) : f.code ≠ 0 := by
  cases f <;> simp [code]

end Fault

/-- The fault a machine stopped at, as it stands in the machine's state. -/
structure FaultRecord where
  code : Int
  address : Word
  value : Int
  deriving DecidableEq, Repr

namespace FaultRecord

/-- The record of a machine that has not stopped. -/
def clear : FaultRecord := ⟨0, 0, 0⟩

/-- The record of a fault met by the instruction at `address`. -/
def of (f : Fault) (address : Word) : FaultRecord := ⟨f.code, address.wrap, f.value⟩

/-- Whether the machine has stopped. -/
def raised (r : FaultRecord) : Bool := r.code ≠ 0

theorem raised_of (f : Fault) (address : Word) : (of f address).raised = true := by
  simp [raised, of, f.code_ne_zero]

end FaultRecord

/-- What a host is told. Hosts may also make errors of their own, hence the open numbers. -/
inductive Error where
  | imageTooLarge (size limit : Int)
  | invalidOpcode (address : Option Int) (word : Int)
  | stackOverflow (depth : Int) (address : Option Int)
  | stackUnderflow (address : Option Int)
  | memoryOutOfRange (address : Int)
  /-- An error of no particular kind. -/
  | other (text : String)
  deriving DecidableEq, Repr

namespace Error

def message : Error → String
  | .imageTooLarge size limit =>
    "Program image is " ++ toString size ++ " bytes, limit is " ++ toString limit ++ " bytes"
  | .invalidOpcode address word =>
    "Invalid opcode 0x" ++ Numeral.Hex.padded 4 word ++
      match address with
      | none => ""
      | some a => " at 0x" ++ Numeral.Hex.padded 3 a
  | .stackOverflow depth _ => "Stack overflow, depth limit is " ++ toString depth
  | .stackUnderflow _ => "Stack underflow on return"
  | .memoryOutOfRange address =>
    "Memory access out of range at 0x" ++ Numeral.Hex.padded 3 address
  | .other text => text

/-- The error that a recorded fault stands for, none for a clear record. Numbers that are the code
of no fault are refused by returning the number. -/
def ofRecord (code address value : Int) : Except Int (Option Error) :=
  if code = 0 then .ok none
  else if code = 1 then .ok (some (.invalidOpcode (some address) value))
  else if code = 2 then .ok (some (.stackOverflow value (some address)))
  else if code = 3 then .ok (some (.stackUnderflow (some address)))
  else if code = 4 then .ok (some (.memoryOutOfRange value))
  else .error code

/-- The error of a fault met at an address. -/
def ofFault (address : Word) : Fault → Error
  | .invalidOpcode w => .invalidOpcode (some address.toNat) w.toNat
  | .stackOverflow => .stackOverflow stackDepth (some address.toNat)
  | .stackUnderflow => .stackUnderflow (some address.toNat)
  | .protectedWrite a => .memoryOutOfRange a.toNat

theorem ofRecord_code (f : Fault) (address : Word) :
    ofRecord f.code address.toNat f.value = .ok (some (ofFault address f)) := by
  cases f <;> rfl

end Error

/-- What a host asks for and does not get. The machine stays as it was. -/
inductive Refusal where
  /-- A number outside the range of the machine word it is to become. -/
  | outOfRange
  /-- A value of a kind that cannot stand where it stands. -/
  | wrongKind
  /-- Nothing has a name that was asked for, or what has it cannot do what was asked. -/
  | unknownName
  /-- A value that stands for no number, or a text that stands for no bytes. -/
  | unreadable
  /-- A text that is no numeral, where a numeral has to be. -/
  | noNumeral (quoted : String)
  /-- A floating point value that is not a number, where an integer has to be. -/
  | notANumber
  /-- A value of a kind that has no hexadecimal digits. -/
  | noHexadecimal (kind : String)
  /-- A text, where a number is shown in groups of three digits. -/
  | noGroups
  /-- A lone number, where a list has to be. -/
  | noList
  /-- A write of no bytes at all. -/
  | nothingToWrite
  /-- A program that ends in half an instruction. -/
  | oddProgram
  /-- A key that is not on the keypad. -/
  | noSuchKey (shown : String)
  /-- Key states that are not one row of sixteen; `shape` gives their number along each axis. -/
  | keyStates (shape : List Nat)
  /-- Rows of uneven lengths, of key states or of pixels. -/
  | unevenRows
  /-- Channels of a colour in lists of uneven lengths; `shape` is as far as they are even. -/
  | unevenChannels (shape : List Nat)
  /-- Channels that are not those of a colour for all pixels, nor of one for each. -/
  | channels (shape : List Nat) (pixels : Nat)
  | unknownScheme (name : String) (available : List String)
  | unknownLevel
  /-- A display that shows no frames at all in a second; `whole` if the rates are whole numbers. -/
  | zeroRate (whole : Bool)
  /-- An image of more bytes than can be counted. -/
  | imageTooBig
  /-- An image of more bytes than there is room for. -/
  | noRoom
  deriving DecidableEq, Repr

namespace Refusal

/-- The numbers of a shape in parentheses; a lone one has a comma after it. -/
def shapeText (separator : String) : List Nat → String
  | [n] => "(" ++ toString n ++ ",)"
  | ns => "(" ++ separator.intercalate (ns.map toString) ++ ")"

/-- The text for the host; what the host can see by itself has none. -/
def message? : Refusal → Option String
  | .oddProgram => some "Program length must be even, opcodes are two bytes"
  | .noSuchKey shown => some ("Key must be in 0x0-0xF, got " ++ shown)
  | .keyStates shape => some ("Expected 16 key states, got shape " ++ shapeText ", " shape)
  | .noNumeral quoted => some ("invalid literal for int() with base 10: " ++ quoted)
  | .notANumber => some "cannot convert float NaN to integer"
  | .noHexadecimal kind => some ("Unknown format code 'X' for object of type '" ++ kind ++ "'")
  | .noGroups => some "Cannot specify ',' with 's'."
  | .unevenChannels shape =>
    some ("setting an array element with a sequence. The requested array has an inhomogeneous shape"
      ++ " after " ++ toString shape.length ++ " dimensions. The detected shape was "
      ++ shapeText ", " shape ++ " + inhomogeneous part.")
  | .channels shape pixels =>
    some ("shape mismatch: value array of shape " ++ shapeText "," shape
      ++ " could not be broadcast to indexing result of shape " ++ shapeText "," [pixels, 3])
  | .unknownScheme name available =>
    some ("Unknown color scheme '" ++ name ++ "'. Available: ["
      ++ ", ".intercalate (available.map fun s => "'" ++ s ++ "'") ++ "]")
  | .unknownLevel => some "tuple.index(x): x not in tuple"
  | .zeroRate true => some "integer division or modulo by zero"
  | .zeroRate false => some "float floor division by zero"
  | .outOfRange | .wrongKind | .unknownName | .unreadable | .noList | .nothingToWrite | .unevenRows
  | .imageTooBig | .noRoom => none

end Refusal
end Chip8
