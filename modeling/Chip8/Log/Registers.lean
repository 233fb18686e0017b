import Chip8.Numeral.Hex
import Chip8.State

/-!
The registers of a machine in text: the counters and timers on one line, and below it the sixteen
registers, four to a line.
-/
namespace Chip8.State

/-- One register after its name. -/
def registerText (s : State) (i : Fin 16) : String :=
  "V" ++ Numeral.Hex.padded 1 i ++ ":" ++ Numeral.Hex.padded 2 (s.registers.get i).toNat

/-- A line of four registers. -/
def registerLine (s : State) (line : Fin 4) : String :=
  " ".intercalate ((List.finRange 4).map fun (column : Fin 4) =>
    s.registerText ⟨4 * line + column, by omega⟩)

/-- The registers, counters, timers and stack pointer. -/
def registerDump (s : State) : String :=
  let first :=
    "PC: 0x" ++ Numeral.Hex.padded 3 s.pc.toNat ++ "  I: 0x" ++ Numeral.Hex.padded 3 s.index.toNat
      ++ "  DT: " ++ toString s.delayTimer.toNat ++ "  ST: " ++ toString s.soundTimer.toNat
      ++ "  SP: " ++ toString s.stack.pointer
  "\n".intercalate (first :: (List.finRange 4).map s.registerLine)

end Chip8.State
