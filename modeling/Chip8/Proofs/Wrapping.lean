import Chip8.Proofs.Plotting
import Mathlib.Algebra.GroupWithZero.Nat
import Mathlib.Data.List.Nodup
import Mathlib.Data.List.ProdSigma

/-!
Sprites at the edges.

A sprite that wraps keeps all its pixels. They are as many as the lit bits of its rows, for the loop
that draws bit by bit hits each of them once and loses none (`length_hits`). Where they are depends
on the origin only by a turn of the screen (`offset_back`). A sprite that does not wrap keeps those
to the right of the origin and below it (`offset_wrap_of_le`), which are all of them as long as it
does not reach over an edge. The main result `wrapped_or_clipped` says this of the masks.
-/
namespace Chip8

namespace Grid
variable {w h : Nat}

/-- The lit pixels of a grid. -/
def litPixels (g : Grid w h) : List (Fin w × Fin h) :=
  ((List.finRange w).product (List.finRange h)).filter fun p => g.pixel p.1 p.2

theorem mem_litPixels {g : Grid w h} {p : Fin w × Fin h} :
    p ∈ g.litPixels ↔ g.pixel p.1 p.2 = true := by
  rw [litPixels, List.mem_filter, and_iff_right]
  exact List.pair_mem_product.2 ⟨List.mem_finRange p.1, List.mem_finRange p.2⟩

theorem nodup_litPixels (g : Grid w h) : g.litPixels.Nodup :=
  ((List.nodup_finRange w).product (List.nodup_finRange h)).filter _

/-- The coordinate `d` before another, on an axis whose ends meet. -/
def back {n : Nat} (p : Fin n) (d : Int) : Fin n :=
  ⟨((p - d) % n).toNat, by
    have hp := p.isLt
    have hnonneg := Int.emod_nonneg (p - d) (b := n) (by omega)
    have hlt := Int.emod_lt_of_pos (p - d) (b := n) (by omega)
    omega⟩

/-- The grid with its pixels moved to the right and down. Past an edge they come back at the
opposite one. -/
def rotate (g : Grid w h) (dx dy : Int) : Grid w h :=
  ofFn fun x y => g.pixel (back x dx) (back y dy)

theorem toNat_back {n : Nat} (p : Fin n) (d : Int) : ((back p d : Nat) : Int) = (p - d) % n := by
  have hp := p.isLt
  exact Int.toNat_of_nonneg (Int.emod_nonneg _ (by omega))

end Grid

namespace Sprite
variable {m : Memory} {index x y : Int} {height size : Nat} {origin : Int} {p : Fin size}

/-! ### No pixel is lost -/

/-- Past an edge there is always a pixel if the axis wraps. -/
theorem exists_landing? (hsize : 0 < size) (n : Nat) : ∃ p, landing? size true n = some p :=
  ⟨⟨n % size, Nat.mod_lt n hsize⟩, landing?_eq_some_iff.2 rfl⟩

/-- A bit of a sprite that wraps hits a pixel if it is lit. -/
theorem isSome_hit? (m : Memory) (index x y : Int) (r c : Nat) :
    (hit? m index x y true r c).isSome = (m.read (Memory.place index r)).getLsbD (7 - c) := by
  obtain ⟨px, hpx⟩ : ∃ px, landing? 64 true ((x % 64).toNat + c) = some px :=
    exists_landing? (by decide) _
  obtain ⟨py, hpy⟩ : ∃ py, landing? 32 true ((y % 32).toNat + r) = some py :=
    exists_landing? (by decide) _
  rw [Bool.eq_iff_iff, Option.isSome_iff_exists]
  constructor
  · rintro ⟨p, hp⟩
    exact (hit?_eq_some_iff.1 hp).1
  · intro hbit
    exact ⟨(px, py), hit?_eq_some_iff.2 ⟨hbit, hpx, hpy⟩⟩

/-- The lit bits of a byte, counted from the left. -/
theorem toNat_cpop (b : Byte) :
    b.cpop.toNat = (List.range 8).countP fun c => b.getLsbD (7 - c) := by
  have hrange : List.range 8 = [0, 1, 2, 3, 4, 5, 6, 7] := rfl
  have hbit (i : Nat) : (b.getLsbD i).toNat = if b.getLsbD i then 1 else 0 := by
    cases b.getLsbD i <;> rfl
  simp only [hrange, BitVec.toNat_cpop, BitVec.cpopNatRec, List.countP_cons, List.countP_nil,
    Nat.reduceSub, hbit]
  omega

/-- The pixels that a wrapping sprite hits are as many as its lit bits. -/
theorem length_hits (m : Memory) (index x y : Int) (height : Nat) :
    (Canvas.hits m index x y height true).length =
      ((List.range height).map fun r => (m.read (Memory.place index r)).cpop.toNat).sum := by
  rw [Canvas.hits, List.length_flatMap]
  simp only [List.length_filterMap_eq_countP, isSome_hit?, toNat_cpop]

/-- The lit pixels of a mask are those that the bits of the sprite hit, each of them once. -/
theorem litPixels_mask_perm {wrap : Bool} {height : Nat} (h : height ≤ 15) :
    (mask m index x y height wrap).litPixels.Perm (Canvas.hits m index x y height wrap) := by
  rw [List.perm_ext_iff_of_nodup (Grid.nodup_litPixels _) (Canvas.nodup_hits (by omega))]
  rintro ⟨px, py⟩
  rw [Grid.mem_litPixels, Canvas.pixel_mask_iff h]

/-! ### Where the pixels are -/

/-- The offset from an origin is that from zero, after a turn. -/
theorem offset_back (size : Nat) (origin : Int) (p : Fin size) :
    offset size true 0 (Grid.back p (origin % size)) = offset size true origin p := by
  simp [offset, Grid.toNat_back]

/-- The mask of a wrapping sprite is that of the same sprite in the corner, turned to its origin. -/
theorem mask_eq_rotate (m : Memory) (index x y height : Int) :
    mask m index x y height true = (mask m index 0 0 height true).rotate (x % 64) (y % 32) := by
  apply Grid.ext_pixel
  intro px py
  have hx : offset 64 true 0 (Grid.back px (x % 64)) = offset 64 true x px := offset_back 64 x px
  have hy : offset 32 true 0 (Grid.back py (y % 32)) = offset 32 true y py := offset_back 32 y py
  rw [Grid.rotate, Grid.pixel_ofFn, Bool.eq_iff_iff, pixel_mask, pixel_mask, hx, hy]

/-! ### The edges -/

/-- From the origin on, wrapping makes no difference. -/
theorem offset_wrap_of_le (h : origin % size ≤ p) :
    offset size true origin p = offset size false origin p := by
  have hp := p.isLt
  have hnonneg := Int.emod_nonneg origin (b := size) (by omega)
  exact Int.emod_eq_of_lt (by omega) (by omega)

/-- Without wrapping, a sprite has nothing before its origin. -/
theorem offset_nonneg_iff : 0 ≤ offset size false origin p ↔ origin % size ≤ p :=
  Int.sub_nonneg

/-- Before the origin are the pixels that are past the edge. -/
theorem offset_wrap_of_lt (h : p < origin % size) :
    offset size true origin p = p - origin % size + size := by
  have hp := p.isLt
  have hlt := Int.emod_lt_of_pos origin (b := size) (by omega)
  calc (p - origin % size) % size
    _ = (p - origin % size + size) % size := by rw [Int.add_emod_right]
    _ = p - origin % size + size := Int.emod_eq_of_lt (by omega) (by omega)

theorem pixel_mask_wrap_of_le {height : Int} {px : Fin 64} {py : Fin 32} (hx : x % 64 ≤ px)
    (hy : y % 32 ≤ py) :
    (mask m index x y height true).pixel px py = (mask m index x y height false).pixel px py := by
  have hcol : offset 64 true x px = offset 64 false x px := offset_wrap_of_le hx
  have hrow : offset 32 true y py = offset 32 false y py := offset_wrap_of_le hy
  rw [Bool.eq_iff_iff, pixel_mask, pixel_mask, hcol, hrow]

/-- A sprite that does not wrap keeps the pixels from its origin on. -/
theorem pixel_mask_clipped (m : Memory) (index x y height : Int) (px : Fin 64) (py : Fin 32) :
    (mask m index x y height false).pixel px py =
      ((mask m index x y height true).pixel px py && decide (x % 64 ≤ px) &&
        decide (y % 32 ≤ py)) := by
  rw [Bool.eq_iff_iff, Bool.and_eq_true_iff, Bool.and_eq_true_iff, decide_eq_true_iff,
    decide_eq_true_iff]
  constructor
  · intro hpixel
    obtain ⟨⟨hcol, -⟩, ⟨hrow, -⟩, -⟩ := (pixel_mask ..).1 hpixel
    have hx : x % 64 ≤ px := offset_nonneg_iff.1 hcol
    have hy : y % 32 ≤ py := offset_nonneg_iff.1 hrow
    exact ⟨⟨(pixel_mask_wrap_of_le hx hy).trans hpixel, hx⟩, hy⟩
  · rintro ⟨⟨hpixel, hx⟩, hy⟩
    exact (pixel_mask_wrap_of_le hx hy).symm.trans hpixel

/-- A sprite that does not reach over an edge is the same with and without wrapping. -/
theorem mask_eq_of_inside {height : Int} (hx : x % 64 ≤ 56) (hy : y % 32 + height ≤ 32) :
    mask m index x y height false = mask m index x y height true := by
  apply Grid.ext_pixel
  intro px py
  rw [pixel_mask_clipped, Bool.and_assoc, Bool.and_eq_left_iff_imp, pixel_mask]
  rintro ⟨⟨-, hcol⟩, ⟨-, hrow⟩, -⟩
  rw [width] at hcol
  rw [Bool.and_eq_true_iff, decide_eq_true_iff, decide_eq_true_iff]
  constructor
  · by_contra hlt
    have hpast : offset 64 true x px = px - x % 64 + 64 := offset_wrap_of_lt (by push_cast; omega)
    omega
  · by_contra hlt
    have hpast : offset 32 true y py = py - y % 32 + 32 := offset_wrap_of_lt (by push_cast; omega)
    omega

/-- **Wrapping loses no pixel, clipping those past the edges.** Both have the pixels of the sprite
in the corner of the screen, moved with the edges joined, and a clipped one those right of and below
its origin. -/
theorem wrapped_or_clipped (m : Memory) (index x y : Int) (height : Nat) (h : height ≤ 15) :
    let wrapped := mask m index x y height true
    let clipped := mask m index x y height false
    wrapped.litPixels.length =
        ((List.range height).map fun r => (m.read (Memory.place index r)).cpop.toNat).sum ∧
      wrapped = (mask m index 0 0 height true).rotate (x % 64) (y % 32) ∧
      (∀ px py, clipped.pixel px py =
        (wrapped.pixel px py && decide (x % 64 ≤ px) && decide (y % 32 ≤ py))) ∧
      (x % 64 ≤ 56 → y % 32 + height ≤ 32 → clipped = wrapped) := by
  intro wrapped clipped
  refine ⟨?_, mask_eq_rotate m index x y height, pixel_mask_clipped m index x y height,
    mask_eq_of_inside⟩
  rw [(litPixels_mask_perm h).length_eq, length_hits]

/-- Fifteen rows from the end of memory and the glyphs at its start, over the right edge and the
bottom edge. What is below the last row comes back at the top. -/
theorem wrapped_or_clipped_corner :
    let m := Memory.fresh
    let wrapped := mask m 0xFFE 62 29 15 true
    let clipped := mask m 0xFFE 62 29 15 false
    wrapped.litPixels.length = 31 ∧ wrapped.pixel 1 31 = true ∧
      (mask m 0xFFE 0 0 15 true).pixel 3 2 = true ∧ clipped.pixel 63 31 = true ∧
      clipped.pixel 1 31 = false ∧ wrapped.pixel 62 0 = true ∧ clipped.pixel 62 0 = false ∧
      mask m 0 56 27 5 false = mask m 0 56 27 5 true := by
  intro m wrapped clipped
  obtain ⟨hcount, hrotate, hclip, -⟩ := wrapped_or_clipped m 0xFFE 62 29 15 (by decide)
  obtain ⟨-, -, -, hinside⟩ := wrapped_or_clipped m 0 56 27 5 (by decide)
  have hturn : wrapped = _ := hrotate
  have hglyph : (mask m 0xFFE 0 0 15 true).pixel 3 2 = true := by decide +kernel
  have hright : wrapped.pixel 1 31 = true := by
    rw [hturn, Grid.rotate, Grid.pixel_ofFn]
    exact hglyph
  have hbelow : wrapped.pixel 62 0 = true := by
    rw [hturn, Grid.rotate, Grid.pixel_ofFn]
    decide +kernel
  refine ⟨?_, hright, hglyph, ?_, ?_, hbelow, ?_, hinside (by decide) (by decide)⟩
  · exact hcount.trans (by decide +kernel)
  · exact (hclip 63 31).trans (by decide +kernel)
  · exact (hclip 1 31).trans (by decide +kernel)
  · exact (hclip 62 0).trans (by decide +kernel)

end Sprite
end Chip8
