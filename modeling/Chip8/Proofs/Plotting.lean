import Chip8.Proofs.Atomicity
import Chip8.Proofs.Opcode

/-!
Sprites drawn pixel by pixel.

The machine draws a sprite at once: it asks of each pixel of the screen which bit of the sprite lies
on it. `Canvas.sprite` is the loop that goes the other way, bit by bit in the order of the rows, and
each lit bit toggles the pixel it lands on. No two bits land on the same pixel, also if the sprite
comes back at the opposite edge, since a pixel knows its bit by its offset from the origin
(`landing?_add_eq_some_iff`). So the loop is a fold over a list of pixels without repetition
(`nodup_hits`), and such a fold toggles the pixels of the list (`pixel_foldl_plot`). The main result
`draw_eq_loop` is that both ways give the same screen and the same flag.
-/
namespace Chip8

/-- The grid with one pixel changed. -/
def Grid.toggle {w h : Nat} (g : Grid w h) (x : Fin w) (y : Fin h) : Grid w h :=
  ⟨g.rows.set y.val ((g.rows.get y).set x.val (!g.pixel x y) x.isLt) y.isLt⟩

theorem Grid.pixel_toggle {w h : Nat} (g : Grid w h) (x x' : Fin w) (y y' : Fin h) :
    (g.toggle x y).pixel x' y' = (g.pixel x' y' != decide ((x, y) = (x', y'))) := by
  have hrow : g.rows.get y = g.rows[y] := rfl
  by_cases hy : y = y'
  · subst hy
    by_cases hx : x = x'
    · subst hx
      simp [toggle, pixel]
    · have hx' : (x : Nat) ≠ x' := fun h => hx (Fin.ext h)
      simp [toggle, hrow, pixel, Vector.getElem_set_ne, hx, hx']
  · have hy' : (y : Nat) ≠ y' := fun h => hy (Fin.ext h)
    simp [toggle, pixel, Vector.getElem_set_ne, hy, hy']

namespace Sprite

/-- Where a coordinate lies on an axis of `size` pixels. Past the edge it comes back at the other
one, or is lost. -/
def landing? (size : Nat) (wrap : Bool) (p : Nat) : Option (Fin size) :=
  let q := if wrap then p % size else p
  if h : q < size then some ⟨q, h⟩ else none

theorem landing?_eq_some_iff {size n : Nat} {wrap : Bool} {p : Fin size} :
    landing? size wrap n = some p ↔ (if wrap then n % size else n) = p := by
  have hp := p.isLt
  simp only [landing?]
  generalize (if wrap then n % size else n) = q
  split
  · simp [Fin.ext_iff]
  · simp only [reduceCtorEq, false_iff]
    omega

theorem add_emod_eq_iff {n o c p : Int} (hc : 0 ≤ c ∧ c < n) (hp : 0 ≤ p ∧ p < n) :
    (o + c) % n = p ↔ (p - o) % n = c := by
  constructor
  · rintro rfl
    calc ((o + c) % n - o) % n
      _ = (o + c - o) % n := Int.emod_sub_emod ..
      _ = c % n := by rw [show o + c - o = c by omega]
      _ = c := Int.emod_eq_of_lt hc.1 hc.2
  · rintro rfl
    calc (o + (p - o) % n) % n
      _ = (o + (p - o)) % n := Int.add_emod_emod ..
      _ = p % n := by rw [show o + (p - o) = p by omega]
      _ = p := Int.emod_eq_of_lt hp.1 hp.2

/-- A coordinate lands on the pixel whose offset from the origin is its own. -/
theorem landing?_add_eq_some_iff {size c : Nat} {wrap : Bool} {origin : Int} {p : Fin size}
    (hc : c < size) :
    landing? size wrap ((origin % size).toNat + c) = some p ↔ offset size wrap origin p = c := by
  obtain ⟨o, ho⟩ := Int.eq_ofNat_of_zero_le (Int.emod_nonneg origin (b := size) (by omega))
  have hp := p.isLt
  rw [landing?_eq_some_iff, offset, ho, Int.toNat_natCast]
  cases wrap with
  | false =>
    simp only [Bool.false_eq_true, if_false]
    omega
  | true =>
    simp only [if_true]
    rw [← add_emod_eq_iff (by omega) (by omega), ← Int.natCast_add, ← Int.natCast_emod,
      Int.natCast_inj]

/-- The bits of a row count from the left. -/
theorem getMsbD_row {m : Memory} {index : Int} {r c : Nat} (hr : r < 15) (hc : c < 8) :
    (row m index r).getMsbD c = (m.read (Memory.place index r)).getLsbD (7 - c) := by
  have hrow : min r (maxHeight - 1) = r := Nat.min_eq_left (Nat.le_of_lt_succ hr)
  rw [row, hrow, BitVec.getMsbD]
  simp [hc]

/-- The pixel that the bit in column `c` of row `r` toggles, if it is lit and not lost. -/
def hit? (m : Memory) (index x y : Int) (wrap : Bool) (r c : Nat) : Option (Fin 64 × Fin 32) :=
  if (m.read (Memory.place index r)).getLsbD (7 - c) then
    (landing? 64 wrap ((x % 64).toNat + c)).bind fun px =>
      (landing? 32 wrap ((y % 32).toNat + r)).map fun py => (px, py)
  else none

theorem hit?_eq_some_iff {m : Memory} {index x y : Int} {wrap : Bool} {r c : Nat} {px : Fin 64}
    {py : Fin 32} :
    hit? m index x y wrap r c = some (px, py) ↔
      (m.read (Memory.place index r)).getLsbD (7 - c) = true ∧
        landing? 64 wrap ((x % 64).toNat + c) = some px ∧
          landing? 32 wrap ((y % 32).toNat + r) = some py := by
  simp [hit?, Option.bind_eq_some_iff]

end Sprite

/-- A screen that is drawn on, and whether a lit pixel was put out. -/
structure Canvas where
  screen : Screen
  collision : Bool
  deriving DecidableEq

namespace Canvas
open Sprite (hit?)

/-- The canvas with a pixel toggled. -/
def plot (k : Canvas) (p : Fin 64 × Fin 32) : Canvas where
  screen := k.screen.toggle p.1 p.2
  collision := k.collision || k.screen.pixel p.1 p.2

/-- The canvas with a sprite drawn on it, row by row and in a row from left to right. -/
def sprite (k : Canvas) (m : Memory) (index x y : Int) (height : Nat) (wrap : Bool) : Canvas :=
  (List.range height).foldl (fun k r =>
    (List.range 8).foldl (fun k c =>
      match hit? m index x y wrap r c with
      | some p => k.plot p
      | none => k) k) k

/-! ### Pixels without repetition -/

/-- A pixel changes if it is in the list. -/
theorem pixel_foldl_plot {l : List (Fin 64 × Fin 32)} (h : l.Nodup) (k : Canvas) {px : Fin 64}
    {py : Fin 32} :
    (l.foldl plot k).screen.pixel px py = true ↔
      (k.screen.pixel px py = true ↔ (px, py) ∉ l) := by
  induction l generalizing k with
  | nil => simp
  | cons p rest ih =>
    obtain ⟨hp, hrest⟩ := List.nodup_cons.1 h
    rw [List.foldl_cons, ih hrest, plot, Grid.pixel_toggle]
    by_cases he : p = (px, py)
    · subst he
      simp [hp]
    · simp [he, Ne.symm he]

theorem collision_foldl_plot {l : List (Fin 64 × Fin 32)} (h : l.Nodup) (k : Canvas) :
    (l.foldl plot k).collision = true ↔
      k.collision = true ∨ ∃ p ∈ l, k.screen.pixel p.1 p.2 = true := by
  induction l generalizing k with
  | nil => simp
  | cons p rest ih =>
    obtain ⟨hp, hrest⟩ := List.nodup_cons.1 h
    rw [List.foldl_cons, ih hrest]
    have hkept : ∀ q ∈ rest, (k.plot p).screen.pixel q.1 q.2 = k.screen.pixel q.1 q.2 := by
      intro q hq
      have hne : p ≠ q := fun he => hp (he ▸ hq)
      simp [plot, Grid.pixel_toggle, hne]
    constructor
    · rintro (hk | ⟨q, hq, hlit⟩)
      · rcases Bool.or_eq_true_iff.1 hk with hk | hlit
        · exact .inl hk
        · exact .inr ⟨p, List.mem_cons_self, hlit⟩
      · rw [hkept q hq] at hlit
        exact .inr ⟨q, List.mem_cons_of_mem p hq, hlit⟩
    · rintro (hk | ⟨q, hq, hlit⟩)
      · exact .inl (Bool.or_eq_true_iff.2 (.inl hk))
      · rcases List.mem_cons.1 hq with rfl | hq
        · exact .inl (Bool.or_eq_true_iff.2 (.inr hlit))
        · rw [← hkept q hq] at hlit
          exact .inr ⟨q, hq, hlit⟩

/-! ### The loop as a list of pixels -/

/-- The pixels that a sprite toggles, in the order of drawing. -/
def hits (m : Memory) (index x y : Int) (height : Nat) (wrap : Bool) : List (Fin 64 × Fin 32) :=
  (List.range height).flatMap fun r => (List.range 8).filterMap fun c => hit? m index x y wrap r c

variable {m : Memory} {index x y : Int} {height : Nat} {wrap : Bool}

theorem sprite_eq_foldl (k : Canvas) :
    k.sprite m index x y height wrap = (hits m index x y height wrap).foldl plot k := by
  rw [hits, List.foldl_flatMap, sprite]
  simp only [List.foldl_filterMap]
  congr
  funext k r
  congr
  funext k c
  cases hit? m index x y wrap r c <;> rfl

theorem mem_hits_iff {px : Fin 64} {py : Fin 32} :
    (px, py) ∈ hits m index x y height wrap ↔
      ∃ r < height, ∃ c < 8, hit? m index x y wrap r c = some (px, py) := by
  simp only [hits, List.mem_flatMap, List.mem_filterMap, List.mem_range]

/-- A pixel is hit by the bit at its offset from the origin. -/
theorem offset_of_hit? {r c : Nat} {px : Fin 64} {py : Fin 32} (hr : r < 32) (hc : c < 64)
    (h : hit? m index x y wrap r c = some (px, py)) :
    Sprite.offset 64 wrap x px = c ∧ Sprite.offset 32 wrap y py = r := by
  obtain ⟨-, hx, hy⟩ := Sprite.hit?_eq_some_iff.1 h
  exact ⟨(Sprite.landing?_add_eq_some_iff hc).1 hx, (Sprite.landing?_add_eq_some_iff hr).1 hy⟩

/-- No two bits of a sprite toggle the same pixel. -/
theorem nodup_hits (hheight : height ≤ 32) : (hits m index x y height wrap).Nodup := by
  rw [hits, List.Nodup, List.pairwise_flatMap]
  constructor
  · intro r hr
    rw [List.mem_range] at hr
    rw [List.pairwise_filterMap]
    apply List.Pairwise.imp_of_mem _ List.nodup_range
    rintro c c' hc hc' hne ⟨px, py⟩ hp q hq rfl
    rw [List.mem_range] at hc hc'
    have h := (offset_of_hit? (by omega) (by omega) hp).1
    have h' := (offset_of_hit? (by omega) (by omega) hq).1
    omega
  · apply List.Pairwise.imp_of_mem _ List.nodup_range
    rintro r r' hr hr' hne ⟨px, py⟩ hp q hq rfl
    rw [List.mem_range] at hr hr'
    obtain ⟨c, hc, hp⟩ := List.mem_filterMap.1 hp
    obtain ⟨c', hc', hq⟩ := List.mem_filterMap.1 hq
    rw [List.mem_range] at hc hc'
    have h := (offset_of_hit? (by omega) (by omega) hp).2
    have h' := (offset_of_hit? (by omega) (by omega) hq).2
    omega

/-- The mask of a sprite has the pixels that its lit bits land on. -/
theorem pixel_mask_iff (hheight : height ≤ 15) (px : Fin 64) (py : Fin 32) :
    (Sprite.mask m index x y height wrap).pixel px py = true ↔
      (px, py) ∈ hits m index x y height wrap := by
  rw [Sprite.pixel_mask, mem_hits_iff]
  constructor
  · rintro ⟨⟨hx, hx'⟩, ⟨hy, hy'⟩, hbit⟩
    obtain ⟨c, hc⟩ := Int.eq_ofNat_of_zero_le hx
    obtain ⟨r, hr⟩ := Int.eq_ofNat_of_zero_le hy
    rw [hc, Sprite.width] at hx'
    rw [hr] at hy'
    rw [hc, hr, Int.toNat_natCast, Int.toNat_natCast,
      Sprite.getMsbD_row (by omega) (by omega)] at hbit
    refine ⟨r, by omega, c, by omega, Sprite.hit?_eq_some_iff.2 ⟨hbit, ?_, ?_⟩⟩
    · exact (Sprite.landing?_add_eq_some_iff (by omega)).2 hc
    · exact (Sprite.landing?_add_eq_some_iff (by omega)).2 hr
  · rintro ⟨r, hr, c, hc, h⟩
    obtain ⟨hx, hy⟩ := offset_of_hit? (by omega) (by omega) h
    rw [hx, hy, Int.toNat_natCast, Int.toNat_natCast, Sprite.width,
      Sprite.getMsbD_row (by omega) hc]
    exact ⟨by omega, by omega, (Sprite.hit?_eq_some_iff.1 h).1⟩

/-- Drawing bit by bit is drawing the mask. -/
theorem sprite_eq (hheight : height ≤ 15) (g : Screen) :
    (Canvas.mk g false).sprite m index x y height wrap =
      ⟨g.xor (Sprite.mask m index x y height wrap),
        g.overlaps (Sprite.mask m index x y height wrap)⟩ := by
  have hnodup : (hits m index x y height wrap).Nodup := nodup_hits (by omega)
  have hmask (px : Fin 64) (py : Fin 32) :
      (Sprite.mask m index x y height wrap).pixel px py = true ↔
        (px, py) ∈ hits m index x y height wrap := pixel_mask_iff hheight px py
  rw [sprite_eq_foldl, Canvas.mk.injEq]
  constructor
  · apply Grid.ext_pixel
    intro px py
    rw [Bool.eq_iff_iff, pixel_foldl_plot hnodup, Grid.pixel_xor, ← hmask]
    simp [Bool.eq_not]
  · rw [Bool.eq_iff_iff, collision_foldl_plot hnodup, Grid.overlaps_iff]
    simp [hmask, and_comm]

end Canvas

namespace State

/-- **A sprite is drawn pixel by pixel.** The instruction that draws leaves the screen and the flag
that the loop over the rows and columns of the sprite ends with. -/
theorem draw_eq_loop (d : Dialect) (s : State) (hf : s.fault.code = 0) :
    (∀ (x y n : Nibble) (address : Word),
      let k := (Canvas.mk s.screen false).sprite s.memory s.index.toNat (s.v x).toNat (s.v y).toNat
        n.toNat d.spritesWrap
      s.execute d (Instruction.encode (.draw x y n)) address =
        {s with
          screen := k.screen
          registers := s.registers.write flagRegister (flagByte k.collision)
          drawn := true}) ∧
    ∀ (m : Memory) (index x y : Int) (height : Nat) (wrap : Bool), height ≤ 15 →
      ∀ (px : Fin 64) (py : Fin 32),
        (Sprite.mask m index x y height wrap).pixel px py = true ↔
          ∃ r < height, ∃ c < 8, (m.read (Memory.place index r)).getLsbD (7 - c) = true ∧
            Sprite.landing? 64 wrap ((x % 64).toNat + c) = some px ∧
              Sprite.landing? 32 wrap ((y % 32).toNat + r) = some py := by
  constructor
  · intro x y n address k
    have hk : k = _ := Canvas.sprite_eq (Nat.le_of_lt_succ n.isLt) s.screen
    have ho : s.outcome d (Instruction.encode (.draw x y n)) = .ok (s.draw d x y n) :=
      outcome_of_decode (Instruction.decode_encode (by simp [Instruction.Shadowed]))
    rw [execute_of_ok ho (not_raised_iff.2 hf), hk]
    rfl
  · intro m index x y height wrap hheight px py
    rw [Canvas.pixel_mask_iff hheight, Canvas.mem_hits_iff]
    simp only [Sprite.hit?_eq_some_iff]

/-- A sprite at the last byte of memory and in the last column and row of the screen comes round on
all three. Its second row is the first of the glyph zero, of which one pixel is lit already. -/
theorem draw_eq_loop_corner :
    let d : Dialect := {Dialect.modern with spritesWrap := true}
    let s : State := {fresh ⟨0, 0⟩ with
      index := 0xFFF
      registers := (Registers.zero.write 0x0 63).write 0xF 31
      screen := (Grid.dark : Screen).toggle 1 0}
    let t := s.execute d 0xD0F2 0x200
    s.fault.code = 0 ∧ t = {s with screen := t.screen, registers := t.registers, drawn := true} ∧
      t.v 0xF = 1 ∧ t.screen.pixel 1 0 = false ∧ t.screen.pixel 2 0 = true ∧
      t.screen.pixel 63 0 = true ∧ t.screen.pixel 63 31 = false ∧
      (Sprite.mask s.memory 0xFFF 63 31 2 true).pixel 1 0 = true := by
  intro d s t
  obtain ⟨hdraw, hmask⟩ := draw_eq_loop d s rfl
  have ht : t = _ := hdraw 0x0 0xF 0x2 0x200
  have hpixels : t.v 0xF = 1 ∧ t.screen.pixel 1 0 = false ∧ t.screen.pixel 2 0 = true ∧
      t.screen.pixel 63 0 = true ∧ t.screen.pixel 63 31 = false := by
    rw [ht]
    decide +kernel
  obtain ⟨hflag, hout, hlit, hlast, hcorner⟩ := hpixels
  refine ⟨rfl, by rw [ht], hflag, hout, hlit, hlast, hcorner, ?_⟩
  apply (hmask s.memory 0xFFF 63 31 2 true (by decide) 1 0).2
  exact ⟨1, by decide, 2, by decide, by decide +kernel, by decide, by decide⟩

end State
end Chip8
