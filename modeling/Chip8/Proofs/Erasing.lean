import Chip8.Proofs.Plotting

/-!
Sprites drawn twice.

A sprite that is drawn again where it was drawn is erased. The first draw changes nothing that the
second one looks at but the screen, as long as no coordinate is in the flag register, so both toggle
the same pixels (`sprite_draw`). The two flags then say what the screen was under the sprite: the
first one whether a pixel was lit there (`overlaps_sprite_iff`), the second one whether a pixel was
dark (`overlaps_xor_sprite_iff`). The main result is `draw_twice`.
-/
namespace Chip8

namespace Grid
variable {w h : Nat} {a b : Grid w h}

/-- What was dark under a grid is lit under it after toggling. -/
theorem overlaps_xor_iff :
    (a.xor b).overlaps b = true ↔ ∃ x y, a.pixel x y = false ∧ b.pixel x y = true := by
  have hpixel (x : Fin w) (y : Fin h) :
      (a.xor b).pixel x y = true ∧ b.pixel x y = true ↔
        a.pixel x y = false ∧ b.pixel x y = true := by
    rw [pixel_xor]
    cases a.pixel x y <;> cases b.pixel x y <;> decide
  simp only [overlaps_iff, hpixel]

/-- Toggling no pixel changes nothing. -/
theorem xor_of_dark (hb : ∀ x y, b.pixel x y = false) : a.xor b = a := by
  apply ext_pixel
  intro x y
  rw [pixel_xor, hb x y, Bool.bne_false]

end Grid

/-- Of two writes to a register the last one counts. -/
theorem Registers.write_write (v : Registers) (x : Nibble) (b c : Byte) :
    (v.write x b).write x c = v.write x c := by
  simp only [write, Vector.set_set]

theorem flagByte_eq_ite {b : Bool} {P : Prop} [Decidable P] (h : b = true ↔ P) :
    flagByte b = if P then 1 else 0 := by
  simp only [flagByte, h]

namespace State
variable {d : Dialect} {s : State} {x y n : Nibble}

/-- The pixels that a draw toggles. -/
def sprite (d : Dialect) (s : State) (x y n : Nibble) : Screen :=
  Sprite.mask s.memory s.index.toNat (s.v x).toNat (s.v y).toNat n.toNat d.spritesWrap

/-- The same pixels one by one, in the order of the bits of the sprite. -/
def spritePixels (d : Dialect) (s : State) (x y n : Nibble) : List (Fin 64 × Fin 32) :=
  Canvas.hits s.memory s.index.toNat (s.v x).toNat (s.v y).toNat n.toNat d.spritesWrap

theorem pixel_sprite_iff {px : Fin 64} {py : Fin 32} :
    (s.sprite d x y n).pixel px py = true ↔ (px, py) ∈ s.spritePixels d x y n :=
  Canvas.pixel_mask_iff (Nat.le_of_lt_succ n.isLt) px py

theorem overlaps_sprite_iff (g : Screen) :
    g.overlaps (s.sprite d x y n) = true ↔
      ∃ p ∈ s.spritePixels d x y n, g.pixel p.1 p.2 = true := by
  simp only [Grid.overlaps_iff, pixel_sprite_iff, Prod.exists, and_comm]

theorem overlaps_xor_sprite_iff (g : Screen) :
    (g.xor (s.sprite d x y n)).overlaps (s.sprite d x y n) = true ↔
      ∃ p ∈ s.spritePixels d x y n, g.pixel p.1 p.2 = false := by
  simp only [Grid.overlaps_xor_iff, pixel_sprite_iff, Prod.exists, and_comm]

theorem draw_eq :
    s.draw d x y n =
      {s with
        screen := s.screen.xor (s.sprite d x y n)
        registers := s.registers.write flagRegister
          (flagByte (s.screen.overlaps (s.sprite d x y n)))
        drawn := true} := rfl

theorem execute_draw (hf : s.fault.code = 0) (a : Word) :
    s.execute d (Instruction.encode (.draw x y n)) a = s.draw d x y n := by
  have ho : s.outcome d (Instruction.encode (.draw x y n)) = .ok (s.draw d x y n) :=
    outcome_of_decode (Instruction.decode_encode (by simp [Instruction.Shadowed]))
  exact execute_of_ok ho (not_raised_iff.2 hf) a

theorem v_draw_of_ne {z : Nibble} (hz : z ≠ flagRegister) : (s.draw d x y n).v z = s.v z := by
  show (s.registers.write flagRegister _).read z = s.registers.read z
  rw [Registers.read_write, if_neg (Ne.symm hz)]

theorem v_draw_flag :
    (s.draw d x y n).v flagRegister = flagByte (s.screen.overlaps (s.sprite d x y n)) := by
  show (s.registers.write flagRegister _).read flagRegister = _
  rw [Registers.read_write, if_pos rfl]
  rfl

/-- A draw does not move its own sprite. -/
theorem sprite_draw (hx : x ≠ flagRegister) (hy : y ≠ flagRegister) :
    (s.draw d x y n).sprite d x y n = s.sprite d x y n := by
  rw [sprite, v_draw_of_ne hx, v_draw_of_ne hy]
  rfl

/-- A second draw takes the first one back, but for the flag. -/
theorem draw_draw (hx : x ≠ flagRegister) (hy : y ≠ flagRegister) :
    (s.draw d x y n).draw d x y n =
      {s with
        registers := s.registers.write flagRegister
          (flagByte ((s.screen.xor (s.sprite d x y n)).overlaps (s.sprite d x y n)))
        drawn := true} := by
  rw [draw_eq, sprite_draw hx hy, draw_eq]
  simp only [Grid.xor_xor, Registers.write_write]

/-- The flag of a second draw. -/
theorem v_draw_draw_flag (hx : x ≠ flagRegister) (hy : y ≠ flagRegister) :
    ((s.draw d x y n).draw d x y n).v flagRegister =
      flagByte ((s.screen.xor (s.sprite d x y n)).overlaps (s.sprite d x y n)) := by
  rw [v_draw_flag, sprite_draw hx hy]
  rfl

/-- A sprite without a pixel does not change the screen. -/
theorem screen_draw_of_nil (h : s.spritePixels d x y n = []) :
    (s.draw d x y n).screen = s.screen := by
  apply Grid.xor_of_dark
  intro px py
  have hout : (px, py) ∉ s.spritePixels d x y n := by
    rw [h]
    exact List.not_mem_nil
  exact Bool.eq_false_iff.2 fun hlit => hout (pixel_sprite_iff.1 hlit)

/-- **A sprite drawn twice is erased.** The first flag is one if a pixel of the sprite was lit, the
second if one was dark. If neither is, the sprite has no pixel on the screen. -/
theorem draw_twice (d : Dialect) (s : State) (x y n : Nibble) (a b : Word) (hf : s.fault.code = 0)
    (hx : x ≠ 0xF) (hy : y ≠ 0xF) :
    let w := Instruction.encode (.draw x y n)
    let t := s.execute d w a
    let u := t.execute d w b
    let pixels := s.spritePixels d x y n
    u.screen = s.screen ∧ u = {s with registers := s.registers.write 0xF (u.v 0xF), drawn := true} ∧
      t.v 0xF = (if ∃ p ∈ pixels, s.screen.pixel p.1 p.2 = true then 1 else 0) ∧
      u.v 0xF = (if ∃ p ∈ pixels, s.screen.pixel p.1 p.2 = false then 1 else 0) ∧
      (t.v 0xF = 0 → u.v 0xF = 0 → pixels = [] ∧ t.screen = s.screen) := by
  intro w t u pixels
  have ht : t = s.draw d x y n := execute_draw hf a
  have hu : u = (s.draw d x y n).draw d x y n := by
    show t.execute d w b = _
    rw [ht]
    exact execute_draw (s := s.draw d x y n) hf b
  have hlit : t.v 0xF = if ∃ p ∈ pixels, s.screen.pixel p.1 p.2 = true then 1 else 0 := by
    rw [ht, ← flagByte_eq_ite (overlaps_sprite_iff s.screen)]
    exact v_draw_flag
  have hflag : u.v 0xF =
      flagByte ((s.screen.xor (s.sprite d x y n)).overlaps (s.sprite d x y n)) := by
    rw [hu]
    exact v_draw_draw_flag hx hy
  have hdark : u.v 0xF = if ∃ p ∈ pixels, s.screen.pixel p.1 p.2 = false then 1 else 0 := by
    rw [hflag]
    exact flagByte_eq_ite (overlaps_xor_sprite_iff s.screen)
  have hback : u = {s with registers := s.registers.write 0xF (u.v 0xF), drawn := true} := by
    rw [hflag, hu]
    exact draw_draw hx hy
  refine ⟨by rw [hback], hback, hlit, hdark, ?_⟩
  intro hfirst hsecond
  -- a pixel of the sprite would be lit or dark, and set one of the flags
  have hnone : pixels = [] := by
    apply List.eq_nil_iff_forall_not_mem.2
    intro p hp
    cases hscreen : s.screen.pixel p.1 p.2 with
    | true =>
      rw [hlit, if_pos ⟨p, hp, hscreen⟩] at hfirst
      exact absurd hfirst (by decide)
    | false =>
      rw [hdark, if_pos ⟨p, hp, hscreen⟩] at hsecond
      exact absurd hsecond (by decide)
  refine ⟨hnone, ?_⟩
  rw [ht]
  exact screen_draw_of_nil hnone

/-- In the last column and row of the screen the glyph zero has one pixel left if it is cut off.
Where that pixel is lit, the first draw puts it out and the second one lights it again. -/
theorem draw_twice_corner :
    let s : State := {fresh ⟨0, 0⟩ with
      registers := (Registers.zero.write 0x0 63).write 0x1 31
      screen := (Grid.dark : Screen).toggle 63 31}
    let t := s.execute .modern 0xD015 0x200
    let u := t.execute .modern 0xD015 0x202
    (s.fault.code = 0 ∧ (0x0 : Nibble) ≠ 0xF ∧ (0x1 : Nibble) ≠ 0xF) ∧
      s.spritePixels .modern 0x0 0x1 0x5 = [(63, 31)] ∧ t.v 0xF = 1 ∧ t.screen = Grid.dark ∧
      u.v 0xF = 0 ∧ u.screen = s.screen := by
  intro s t u
  obtain ⟨hscreen, -, hfirst, hsecond, -⟩ :=
    draw_twice .modern s 0x0 0x1 0x5 0x200 0x202 rfl (by decide) (by decide)
  have hpixels : s.spritePixels .modern 0x0 0x1 0x5 = [(63, 31)] := by decide +kernel
  rw [hpixels] at hfirst hsecond
  refine ⟨⟨rfl, by decide, by decide⟩, hpixels, ?_, by decide +kernel, ?_, hscreen⟩
  · exact hfirst.trans (by decide +kernel)
  · exact hsecond.trans (by decide +kernel)

/-- A coordinate in the flag register is lost with the first draw. -/
example :
    let s : State := {fresh ⟨0, 0⟩ with registers := Registers.zero.write 0xF 8}
    ((s.execute .modern 0xDF01 0x200).execute .modern 0xDF01 0x202).screen ≠ s.screen := by
  decide +kernel

end State
end Chip8
