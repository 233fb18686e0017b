import Chip8.Argument

/-!
Errors as a host sees them.

A `Description` is the kind of an error, its text, and its attributes by name. A host may make
errors out of any values (`make`), and out of a fault record that never came from a machine
(`ofRecord`); what it gets then is described by the same rules as an error of the machine.
-/
namespace Chip8

inductive ErrorKind where
  | imageTooLarge
  | invalidOpcode
  | stackOverflow
  | stackUnderflow
  | memoryOutOfRange
  /-- Of no particular kind. -/
  | other
  deriving DecidableEq, Repr

structure Description where
  kind : ErrorKind
  message : String
  attributes : List (String × Value)

namespace Description

/-- Whether the machine is past running on; a host may try again with a smaller image. -/
def fatal (d : Description) : Bool := d.kind ≠ .imageTooLarge

/-- An address in the text of an error; no address has no text. -/
def place : Value → Except Refusal String
  | .none => .ok ""
  | address => (address.hexadecimal 3).map (" at 0x" ++ ·)

def imageTooLarge (size limit : Value) : Description :=
  ⟨.imageTooLarge,
    "Program image is " ++ size.text ++ " bytes, limit is " ++ limit.text ++ " bytes",
    [("size", size), ("limit", limit)]⟩

def invalidOpcode (address word : Value) : Except Refusal Description := do
  let place ← place address
  let digits ← word.hexadecimal 4
  return ⟨.invalidOpcode, "Invalid opcode 0x" ++ digits ++ place,
    [("address", address), ("instruction", word)]⟩

def stackOverflow (depth address : Value) : Description :=
  ⟨.stackOverflow, "Stack overflow, depth limit is " ++ depth.text,
    [("depth", depth), ("address", address)]⟩

def stackUnderflow (address : Value) : Description :=
  ⟨.stackUnderflow, "Stack underflow on return", [("address", address)]⟩

def memoryOutOfRange (address : Value) : Except Refusal Description := do
  let digits ← address.hexadecimal 3
  return ⟨.memoryOutOfRange, "Memory access out of range at 0x" ++ digits, [("address", address)]⟩

/-- The error of a kind that a host makes. -/
def make (kind : ErrorKind) (args : List Value) : Except Refusal Description :=
  match kind, args with
  | .imageTooLarge, [size, limit] => .ok (imageTooLarge size limit)
  | .invalidOpcode, [address, word] => invalidOpcode address word
  | .stackOverflow, [depth] => .ok (stackOverflow depth .none)
  | .stackOverflow, [depth, address] => .ok (stackOverflow depth address)
  | .stackUnderflow, [] => .ok (stackUnderflow .none)
  | .stackUnderflow, [address] => .ok (stackUnderflow address)
  | .memoryOutOfRange, [address] => memoryOutOfRange address
  | .other, args => .ok ⟨.other, Value.joined args, []⟩
  | _, _ => .error .wrongKind

/-- The number of a kind of fault, whether it is an integer or not. -/
def codeOfValue : Value → Except Refusal Int
  | .real x =>
    let n := (Numeral.Binary.ofFloat x).truncated
    if Float.ofInt n == x then .ok n else .error .unreadable
  | v => v.number?.elim (.error .unreadable) .ok

/-- The error that a fault record stands for, if it stands for any. -/
def ofRecord (code address value : Value) : Except Refusal (Option Description) := do
  match ← codeOfValue code with
  | 0 => return none
  | 1 => return some (← invalidOpcode address value)
  | 2 => return some (stackOverflow value address)
  | 3 => return some (stackUnderflow address)
  | 4 => return some (← memoryOutOfRange value)
  | _ => .error .unreadable

/-- The description of an error of the machine. -/
def ofError : Error → Description
  | .imageTooLarge size limit => imageTooLarge (.integer size) (.integer limit)
  | e@(.invalidOpcode address word) =>
    ⟨.invalidOpcode, e.message,
      [("address", address.elim .none .integer), ("instruction", .integer word)]⟩
  | .stackOverflow depth address => stackOverflow (.integer depth) (address.elim .none .integer)
  | .stackUnderflow address => stackUnderflow (address.elim .none .integer)
  | e@(.memoryOutOfRange address) =>
    ⟨.memoryOutOfRange, e.message, [("address", .integer address)]⟩
  | .other text => ⟨.other, text, []⟩

end Description
end Chip8
