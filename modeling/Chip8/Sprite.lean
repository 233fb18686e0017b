import Chip8.Grid
import Chip8.Memory

/-!
Sprites.

A sprite is eight pixels wide; its rows are bytes of memory, the leftmost pixel in the highest bit.
Its origin always wraps onto the screen. Pixels past the right or bottom edge come back at the
opposite edge if the dialect wraps sprites, and are lost otherwise. `pixel_mask` is the rule for one
pixel of the screen.
-/
namespace Chip8.Sprite

def width : Nat := 8

/-- The most rows an instruction can ask for. -/
def maxHeight : Nat := 15

/-- How far pixel `p` lies past a sprite's origin along an axis of `size` pixels. -/
def offset (size : Nat) (wrap : Bool) (origin : Int) (p : Nat) : Int :=
  let d := p - origin % size
  if wrap then d % size else d

/-- Row `r` of the sprite at `index`. Rows past the last possible one repeat it. -/
def row (m : Memory) (index : Int) (r : Nat) : Byte :=
  m.read (Memory.place index (min r (maxHeight - 1)))

/-- A row of a sprite on a row of the screen. -/
def line (b : Byte) (x : Int) (wrap : Bool) : Vector Bool 64 :=
  Grid.rowOf fun px =>
    let c := offset 64 wrap x px
    if 0 ≤ c ∧ c < width then b.getMsbD c.toNat else false

/-- The pixels of the screen that a sprite of `height` rows at `x`, `y` toggles. -/
def mask (m : Memory) (index x y height : Int) (wrap : Bool) : Screen :=
  Grid.ofRows fun py =>
    let r := offset 32 wrap y py
    if 0 ≤ r ∧ r < height then line (row m index r.toNat) x wrap else Vector.replicate 64 false

theorem pixel_mask (m : Memory) (index x y height : Int) (wrap : Bool) (px : Fin 64) (py : Fin 32) :
    (mask m index x y height wrap).pixel px py = true ↔
      (0 ≤ offset 64 wrap x px ∧ offset 64 wrap x px < width) ∧
        (0 ≤ offset 32 wrap y py ∧ offset 32 wrap y py < height) ∧
          (row m index (offset 32 wrap y py).toNat).getMsbD (offset 64 wrap x px).toNat = true := by
  rw [mask, Grid.pixel_ofRows]
  by_cases hr : 0 ≤ offset 32 wrap y py ∧ offset 32 wrap y py < height
  · simp only [hr, and_self, if_true, line, Grid.getElem_rowOf]
    simp
  · simp [hr]

end Chip8.Sprite
