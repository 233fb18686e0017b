import Chip8.Picture

/-!
Texts of a display, read back.

A text is cut into lines at its line breaks, and a line into cells of as many characters as the text
of a pixel has. If the texts for a lit pixel and a dark one are equally long and have no line break,
the lines are the rows of the display (`linesOf_text`), and the cells of a line are the pixels of
the row (`cell_rowText`). So nothing is lost: a reader that only knows the text of a lit pixel finds
the size of the display and every pixel (`ofText_text`). The main result is `text_legible`.
-/
namespace Chip8.Picture
variable {w h : Nat} {lit dark : String}

/-- The lines of a text, without the line breaks between them. -/
def linesOf (s : String) : List String := (s.split '\n').toList.map String.Slice.copy

/-- Cell `x` of a line that is cut into cells of `k` characters. -/
def cell (k : Nat) (line : String) (x : Nat) : String :=
  String.ofList ((line.toList.drop (k * x)).take k)

/-- The display that a text shows. It has a row for each line and a column for each cell of the
first line, and a pixel is lit if its cell is the text of a lit one. -/
def ofText (lit s : String) : (w h : Nat) × Grid w h :=
  let ls := linesOf s
  ⟨(ls.headD "").length / lit.length, ls.length,
    Grid.ofFn fun x y => cell lit.length (ls.getD y "") x = lit⟩

/-- The text of a pixel. -/
def mark (lit dark : String) (p : Bool) : String := if p then lit else dark

/-- The text of a row. -/
def rowText (lit dark : String) (row : Vector Bool w) : String :=
  String.join (row.toList.map (mark lit dark))

theorem lines_eq (g : Grid w h) (lit dark : String) :
    lines g lit dark = g.rows.toList.map (rowText lit dark) := rfl

/-! ### Cells -/

theorem length_join {k : Nat} {cells : List String} (h : ∀ c ∈ cells, c.length = k) :
    (String.join cells).length = k * cells.length := by
  induction cells with
  | nil => simp
  | cons c rest ih =>
    rw [String.join_cons, String.length_append, h c List.mem_cons_self,
      ih fun c hc => h c (List.mem_cons_of_mem _ hc), List.length_cons, Nat.mul_succ]
    omega

/-- Texts of one length that were put together are found again by their numbers. -/
theorem cell_join {k : Nat} {cells : List String} (h : ∀ c ∈ cells, c.length = k) {x : Nat}
    (hx : x < cells.length) : cell k (String.join cells) x = cells[x] := by
  induction cells generalizing x with
  | nil => exact absurd hx (Nat.not_lt_zero x)
  | cons c rest ih =>
    have hc : c.toList.length = k := by
      rw [String.length_toList]
      exact h c List.mem_cons_self
    rw [cell, String.join_cons, String.toList_append]
    cases x with
    | zero => rw [Nat.mul_zero, List.drop_zero, List.take_left' hc, String.ofList_toList]; rfl
    | succ x =>
      have hpast : k * (x + 1) = c.toList.length + k * x := by rw [hc, Nat.mul_succ, Nat.add_comm]
      rw [hpast, List.drop_length_add_append]
      exact ih (fun c hc => h c (List.mem_cons_of_mem _ hc)) (Nat.lt_of_succ_lt_succ hx)

theorem length_mark (hlength : lit.length = dark.length) (p : Bool) :
    (mark lit dark p).length = lit.length := by
  cases p
  · exact hlength.symm
  · rfl

theorem length_of_mem_marks (hlength : lit.length = dark.length) {row : List Bool} :
    ∀ c ∈ row.map (mark lit dark), c.length = lit.length := by
  intro c hc
  obtain ⟨p, -, rfl⟩ := List.mem_map.1 hc
  exact length_mark hlength p

theorem mark_eq_lit_iff (hne : lit ≠ dark) {p : Bool} : mark lit dark p = lit ↔ p = true := by
  cases p <;> simp [mark, Ne.symm hne]

theorem mark_eq_dark_iff (hne : lit ≠ dark) {p : Bool} : mark lit dark p = dark ↔ p = false := by
  cases p <;> simp [mark, hne]

/-! ### Lines -/

theorem length_lines (g : Grid w h) (lit dark : String) : (lines g lit dark).length = h := by
  rw [lines_eq, List.length_map, Vector.length_toList]

/-- A line of a display in text is a row of it. -/
theorem getElem?_lines (g : Grid w h) (y : Fin h) :
    (lines g lit dark)[y.val]? = some (rowText lit dark (g.rows.get y)) := by
  have hrow : g.rows.toList[y.val]? = some (g.rows.get y) := by simp [Vector.get]
  rw [lines_eq, List.getElem?_map, hrow]
  rfl

theorem not_mem_mark (hlit : '\n' ∉ lit.toList) (hdark : '\n' ∉ dark.toList) (p : Bool) :
    '\n' ∉ (mark lit dark p).toList := by
  cases p
  · exact hdark
  · exact hlit

/-- The text of a display is cut into its rows. -/
theorem linesOf_text (g : Grid w h) (hh : 0 < h) (hlit : '\n' ∉ lit.toList)
    (hdark : '\n' ∉ dark.toList) : linesOf (text g lit dark) = lines g lit dark := by
  have hbreak : ∀ line ∈ lines g lit dark, '\n' ∉ line.toList := by
    intro line hline
    rw [lines_eq, List.mem_map] at hline
    obtain ⟨row, -, rfl⟩ := hline
    rw [rowText, String.toList_join, List.mem_flatMap]
    intro ⟨cell, hcell, hmem⟩
    obtain ⟨p, -, rfl⟩ := List.mem_map.1 hcell
    exact not_mem_mark hlit hdark p hmem
  have hsome : lines g lit dark ≠ [] := by
    apply List.ne_nil_of_length_pos
    rw [length_lines]
    exact hh
  have hsplit := String.toList_split_intercalate hbreak
  rw [if_neg hsome] at hsplit
  exact hsplit

theorem length_rowText (hlength : lit.length = dark.length) (row : Vector Bool w) :
    (rowText lit dark row).length = lit.length * w := by
  rw [rowText, length_join (length_of_mem_marks hlength), List.length_map, Vector.length_toList]

/-- A cell of a line is the text of its pixel. -/
theorem cell_rowText (hlength : lit.length = dark.length) (g : Grid w h) (x : Fin w) (y : Fin h) :
    cell lit.length (rowText lit dark (g.rows.get y)) x = mark lit dark (g.pixel x y) := by
  have hx : x.val < ((g.rows.get y).toList.map (mark lit dark)).length := by
    rw [List.length_map, Vector.length_toList]
    exact x.isLt
  rw [rowText, cell_join (length_of_mem_marks hlength) hx, List.getElem_map]
  rfl

/-! ### The display of a text -/

/-- Two different texts of one length have characters. -/
theorem length_pos_of_ne (hne : lit ≠ dark) (hlength : lit.length = dark.length) :
    0 < lit.length := by
  apply Nat.pos_of_ne_zero
  intro hzero
  have hlit : lit = "" := String.length_eq_zero_iff.1 hzero
  have hdark : dark = "" := String.length_eq_zero_iff.1 (hlength.symm.trans hzero)
  exact hne (hlit.trans hdark.symm)

/-- A display is known by its size and its pixels. -/
theorem mk_ofFn_eq {w' h' : Nat} {f : Nat → Nat → Bool} (g : Grid w h) (hw : w' = w) (hh : h' = h)
    (hf : ∀ (x : Fin w) (y : Fin h), f x y = g.pixel x y) :
    (⟨w', h', Grid.ofFn fun x y => f x y⟩ : (w h : Nat) × Grid w h) = ⟨w, h, g⟩ := by
  subst hw hh
  congr
  apply Grid.ext_pixel
  intro x y
  rw [Grid.pixel_ofFn, hf]

theorem ofText_text (g : Grid w h) (hh : 0 < h) (hne : lit ≠ dark)
    (hlength : lit.length = dark.length) (hlit : '\n' ∉ lit.toList) (hdark : '\n' ∉ dark.toList) :
    ofText lit (text g lit dark) = ⟨w, h, g⟩ := by
  have hfirst : ((lines g lit dark).headD "").length = lit.length * w := by
    have hline : (lines g lit dark)[0]? = some _ := getElem?_lines g ⟨0, hh⟩
    rw [List.headD_eq_head?_getD, List.head?_eq_getElem?, hline, Option.getD_some]
    exact length_rowText hlength _
  have hwidth : ((lines g lit dark).headD "").length / lit.length = w := by
    rw [hfirst, Nat.mul_div_cancel_left w (length_pos_of_ne hne hlength)]
  have hpixel (x : Fin w) (y : Fin h) :
      decide (cell lit.length ((lines g lit dark).getD y "") x = lit) = g.pixel x y := by
    rw [List.getD_eq_getElem?_getD, getElem?_lines, Option.getD_some, cell_rowText hlength,
      Bool.eq_iff_iff, decide_eq_true_iff]
    exact mark_eq_lit_iff hne
  rw [ofText, linesOf_text g hh hlit hdark]
  exact mk_ofFn_eq (f := fun x y => cell lit.length ((lines g lit dark).getD y "") x = lit) g
    hwidth (length_lines g lit dark) hpixel

/-- **A display can be read back from its text.** In the line of a row, the text of a lit pixel
stands exactly where a pixel is lit, so that this text is enough to find the display. -/
theorem text_legible (g : Grid w h) (lit dark : String) (hh : 0 < h) (hne : lit ≠ dark)
    (hlength : lit.length = dark.length) (hlit : '\n' ∉ lit.toList) (hdark : '\n' ∉ dark.toList) :
    let k := lit.length
    let s := text g lit dark
    textOfValues g (.string lit) (.string dark) = .ok s ∧ (linesOf s).length = h ∧
      (∀ line ∈ linesOf s, line.length = k * w) ∧
      (∀ (x : Fin w) (y : Fin h), ∃ line, (linesOf s)[y.val]? = some line ∧
        (cell k line x = lit ↔ g.pixel x y = true) ∧
        (cell k line x = dark ↔ g.pixel x y = false)) ∧
      ofText lit s = ⟨w, h, g⟩ := by
  intro k s
  have hlines : linesOf s = lines g lit dark := linesOf_text g hh hlit hdark
  refine ⟨rfl, ?_, ?_, ?_, ofText_text g hh hne hlength hlit hdark⟩
  · rw [hlines, length_lines]
  · intro line hline
    rw [hlines, lines_eq, List.mem_map] at hline
    obtain ⟨row, -, rfl⟩ := hline
    exact length_rowText hlength row
  · intro x y
    rw [hlines]
    refine ⟨_, getElem?_lines g y, ?_, ?_⟩
    · rw [cell_rowText hlength]
      exact mark_eq_lit_iff hne
    · rw [cell_rowText hlength]
      exact mark_eq_dark_iff hne

/-- A display of three columns and two rows with the pixel in the corner at the top right lit, two
characters for each pixel. -/
theorem text_legible_pairs :
    let g : Grid 3 2 := Grid.ofFn fun x y => x = 2 && y = 0
    let s := text g "[]" ".."
    (0 < 2 ∧ "[]" ≠ ".." ∧ "[]".length = "..".length ∧ '\n' ∉ "[]".toList ∧
      '\n' ∉ "..".toList) ∧
      s = "....[]\n......" ∧ (linesOf s).length = 2 ∧ (∀ line ∈ linesOf s, line.length = 6) ∧
      (∃ line, (linesOf s)[0]? = some line ∧ cell 2 line 2 = "[]" ∧ cell 2 line 1 = "..") ∧
      ofText "[]" s = ⟨3, 2, g⟩ := by
  intro g s
  obtain ⟨-, hcount, hlength, hcells, hback⟩ :=
    text_legible g "[]" ".." (by decide) (by decide) (by decide) (by decide) (by decide)
  obtain ⟨line, hline, hlit, -⟩ := hcells 2 0
  obtain ⟨line', hline', -, hdark⟩ := hcells 1 0
  have hsame : line' = line := Option.some.inj (hline'.symm.trans hline)
  rw [hsame] at hdark
  refine ⟨⟨by decide, by decide, by decide, by decide, by decide⟩, by decide, hcount, hlength,
    ⟨line, hline, hlit.2 (by decide), hdark.2 (by decide)⟩, hback⟩

end Chip8.Picture
