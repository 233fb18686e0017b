/-!
Grids of pixels.

A grid has `w` columns and `h` rows, and a pixel is lit or dark. It is stored row by row, from the
top, and read by column and row; `pixel_ofFn`, `pixel_combine` and `overlaps_iff` say what the
operations do to a pixel.
-/
namespace Chip8

structure Grid (w h : Nat) where
  rows : Vector (Vector Bool w) h
  deriving DecidableEq, Repr

namespace Grid
variable {w h : Nat}

/-- The pixel in column `x` of row `y`. -/
def pixel (g : Grid w h) (x : Fin w) (y : Fin h) : Bool := g.rows[y][x]

/-- The row of the pixels that `f` gives. It is built from a list, on which evaluation inside a
proof is quick. -/
def rowOf (f : Fin w → Bool) : Vector Bool w := ⟨(List.ofFn f).toArray, by simp⟩

def ofRows (f : Fin h → Vector Bool w) : Grid w h := ⟨⟨(List.ofFn f).toArray, by simp⟩⟩

def ofFn (f : Fin w → Fin h → Bool) : Grid w h := ofRows fun y => rowOf fun x => f x y

/-- The grid without a lit pixel. -/
def dark : Grid w h := ⟨Vector.replicate h (Vector.replicate w false)⟩

/-- Two rows of anything combined entry by entry. -/
def zipRows {α : Type} {n : Nat} (f : α → α → α) (a b : Vector α n) : Vector α n :=
  ⟨(List.zipWith f a.toList b.toList).toArray, by simp⟩

/-- Two grids combined pixel by pixel. -/
def combine (f : Bool → Bool → Bool) (a b : Grid w h) : Grid w h :=
  ⟨zipRows (zipRows f) a.rows b.rows⟩

/-- The pixels lit in exactly one of two grids. -/
def xor (a b : Grid w h) : Grid w h := combine (· != ·) a b

/-- Whether a pixel is lit in both grids. -/
def overlaps (a b : Grid w h) : Bool :=
  (combine (· && ·) a b).rows.toList.any fun row => row.toList.any id

/-- Pixels are all there is to a grid. -/
theorem ext_pixel {a b : Grid w h} (hp : ∀ x y, a.pixel x y = b.pixel x y) : a = b := by
  obtain ⟨a⟩ := a
  obtain ⟨b⟩ := b
  congr 1
  ext y hy x hx
  exact hp ⟨x, hx⟩ ⟨y, hy⟩

theorem getElem_rowOf (f : Fin w → Bool) (x : Fin w) : (rowOf f)[x] = f x := by
  simp [rowOf]

theorem pixel_ofRows (f : Fin h → Vector Bool w) (x : Fin w) (y : Fin h) :
    (ofRows f).pixel x y = (f y)[x] := by
  simp [ofRows, pixel]

theorem pixel_ofFn (f : Fin w → Fin h → Bool) (x : Fin w) (y : Fin h) :
    (ofFn f).pixel x y = f x y := by
  simp [ofFn, ofRows, rowOf, pixel]

theorem pixel_combine (f : Bool → Bool → Bool) (a b : Grid w h) (x : Fin w) (y : Fin h) :
    (combine f a b).pixel x y = f (a.pixel x y) (b.pixel x y) := by
  simp [combine, zipRows, pixel]

theorem pixel_xor (a b : Grid w h) (x : Fin w) (y : Fin h) :
    (a.xor b).pixel x y = (a.pixel x y != b.pixel x y) :=
  pixel_combine ..

theorem overlaps_iff {a b : Grid w h} :
    a.overlaps b = true ↔ ∃ x y, a.pixel x y = true ∧ b.pixel x y = true := by
  simp only [overlaps, List.any_eq_true, id, List.mem_iff_getElem, Vector.length_toList,
    Vector.getElem_toList]
  constructor
  · rintro ⟨_, ⟨y, hy, rfl⟩, _, ⟨x, hx, rfl⟩, hp⟩
    have := pixel_combine (· && ·) a b ⟨x, hx⟩ ⟨y, hy⟩
    exact ⟨⟨x, hx⟩, ⟨y, hy⟩, by simp_all [pixel]⟩
  · rintro ⟨x, y, ha, hb⟩
    have := pixel_combine (· && ·) a b x y
    exact ⟨_, ⟨y, y.isLt, rfl⟩, _, ⟨x, x.isLt, rfl⟩, by simp_all [pixel]⟩

/-- Combining twice with the same grid by exclusive or changes nothing. -/
theorem xor_xor (a b : Grid w h) : (a.xor b).xor b = a :=
  ext_pixel fun x y => by simp [pixel_xor]

end Grid

/-- The display of the machine. -/
abbrev Screen := Grid 64 32

end Chip8
