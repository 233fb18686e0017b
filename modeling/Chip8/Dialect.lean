import Chip8.Argument

/-!
Dialects of the instruction set.

The machine was built many times, and its instructions drifted apart. A `Dialect` fixes each point
on which programs have come to depend. A host names a dialect, or the points that hold in it.
-/
namespace Chip8

structure Dialect where
  /-- The shifts `8XY6` and `8XYE` take their operand from `VY`; otherwise from `VX`. -/
  shiftTakesVY : Bool
  /-- Moving registers to and from memory, `FX55` and `FX65`, leaves `I` past the last byte moved;
  otherwise `I` stays. -/
  moveAdvancesIndex : Bool
  /-- The jump `BNNN` adds the register named by its second nibble; otherwise `V0`. -/
  jumpTakesVX : Bool
  /-- The bitwise operations `8XY1`, `8XY2` and `8XY3` clear `VF`. -/
  logicClearsFlag : Bool
  /-- Sprite pixels past the right or bottom edge come back at the opposite one; otherwise they
  are lost. -/
  spritesWrap : Bool
  /-- Calls of machine code, `0NNN`, are passed over; otherwise they are invalid. -/
  skipsMachineCode : Bool
  deriving DecidableEq, Repr

namespace Dialect

/-- What programs written for handheld calculators and after expect. -/
def modern : Dialect := ⟨false, false, false, false, false, false⟩

/-- What programs written for the first home computers expect. -/
def legacy : Dialect :=
  {modern with shiftTakesVY := true, moveAdvancesIndex := true, logicClearsFlag := true}

/-- The points of a dialect by name, and whether they hold. -/
def points (d : Dialect) : List (String × Bool) :=
  [("shift_uses_vy", d.shiftTakesVY), ("memory_increments_index", d.moveAdvancesIndex),
    ("jump_uses_vx", d.jumpTakesVX), ("logic_resets_vf", d.logicClearsFlag),
    ("wrap_sprites", d.spritesWrap), ("ignore_sys", d.skipsMachineCode)]

/-- The dialect with one more point that holds. -/
def hold (d : Dialect) : Value → Except Refusal Dialect
  | .string "shift_uses_vy" => .ok {d with shiftTakesVY := true}
  | .string "memory_increments_index" => .ok {d with moveAdvancesIndex := true}
  | .string "jump_uses_vx" => .ok {d with jumpTakesVX := true}
  | .string "logic_resets_vf" => .ok {d with logicClearsFlag := true}
  | .string "wrap_sprites" => .ok {d with spritesWrap := true}
  | .string "ignore_sys" => .ok {d with skipsMachineCode := true}
  | _ => .error .wrongKind

/-- The dialect that a host names, or whose points it names. -/
def ofValue : Value → Except Refusal Dialect
  | .string "modern" => .ok modern
  | .string "legacy" => .ok legacy
  | v => do (← v.items).foldlM hold modern

end Dialect
end Chip8
