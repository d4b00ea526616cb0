/-
# The screen as a page of cells

On a screen of 1280 by 800 a character has a cell of 16 by 16 pixels, 80 in a row and 50 rows.  Here
are the functions of the terminal by what they make of a cell.

| source | on the page |
| --- | --- |
| `term_clear_screen` | all cells are blank, the cursor is at cell 0 |
| a printable character | its glyph is over the cell of the cursor, which is one further |
| `'\b'`, not in the first column | the cursor is one back, and its cell is blank |
| `'\n'` | the cursor is at the start of the next row |
| `term_scroll` | each cell takes what was 80 cells behind it, and the last row is blank |

The cells from the cursor on are blank whatever is printed (`TermCtx.Page`).
-/

import AiOsExchange.Shell.Screen

namespace AiOsExchange
namespace Shell

open Runs

/-! ### Cells -/

/-- The cell of the cursor. -/
def TermCtx.cell (ctx : TermCtx) : ℕ := 80 * (ctx.cursorY / 16) + ctx.cursorX / 16

/-- The colour of a pixel of a cell. -/
def TermCtx.look (ctx : TermCtx) (n dx dy : ℕ) : ℕ :=
  ctx.framebuffer (ctx.pixel (16 * (n % 80) + dx) (16 * (n / 80) + dy))

/-- The bit of a glyph at a pixel of its cell. -/
def glyphBit (font8x8 : ℕ → ℕ → ℕ) (c : UInt8) (dx dy : ℕ) : Bool :=
  (font8x8 (c.toNat - 32) (dy / 2)).testBit (7 - dx / 2)

section
variable {ctx : TermCtx} {stores : List (ℕ × ℕ)} {font8x8 : ℕ → ℕ → ℕ} {n dx dy : ℕ}

/-- Stores of the values of a function. -/
theorem TermCtx.store_framebuffer {g : ℕ → ℕ} (h : ∀ s ∈ stores, s.2 = g s.1) (i : ℕ) :
    (ctx.store stores).framebuffer i =
      if i ∈ stores.map Prod.fst then g i else ctx.framebuffer i := by
  have hfold (fb : ℕ → ℕ) : stores.foldl (fun fb s => Function.update fb s.1 s.2) fb i =
      if i ∈ stores.map Prod.fst then g i else fb i := by
    induction stores generalizing fb with
    | nil => rfl
    | cons s stores ih =>
        rw [List.foldl_cons, ih fun s' hs' => h s' (List.mem_cons_of_mem _ hs'), List.map_cons]
        by_cases hi : i ∈ stores.map Prod.fst
        · rw [if_pos hi, if_pos (List.mem_cons_of_mem _ hi)]
        · rw [if_neg hi, Function.update_apply]
          by_cases his : i = s.1
          · rw [if_pos his, if_pos (List.mem_cons.2 (.inl his)), his,
              h s List.mem_cons_self]
          · rw [if_neg his, if_neg fun hmem => (List.mem_cons.1 hmem).elim his hi]
  exact hfold ctx.framebuffer

theorem TermCtx.look_store {g : ℕ → ℕ} (h : ∀ s ∈ stores, s.2 = g s.1) :
    (ctx.store stores).look n dx dy =
      if ctx.pixel (16 * (n % 80) + dx) (16 * (n / 80) + dy) ∈ stores.map Prod.fst then
        g (ctx.pixel (16 * (n % 80) + dx) (16 * (n / 80) + dy))
      else ctx.look n dx dy := TermCtx.store_framebuffer h _

/-- The words of two pixels of cells are the same for the same pixel of the same cell only. -/
theorem cell_pixel_inj {n' dx' dy' : ℕ} (hdx : dx < 16) (hdy : dy < 16) (hdx' : dx' < 16)
    (hdy' : dy' < 16)
    (h : (16 * (n / 80) + dy) * 1280 + (16 * (n % 80) + dx) =
      (16 * (n' / 80) + dy') * 1280 + (16 * (n' % 80) + dx')) :
    n = n' ∧ dx = dx' ∧ dy = dy' := by
  omega

/-- The corner of the cell of the cursor is where the cursor stands. -/
theorem TermCtx.AtCell.corner (hs : ctx.AtCell 1280 800) (hx : ctx.cursorX + 16 ≤ 1280) :
    16 * (ctx.cell / 80) = ctx.cursorY ∧ 16 * (ctx.cell % 80) = ctx.cursorX := by
  obtain ⟨kx, hkx⟩ := hs.cell_x
  obtain ⟨ky, hky⟩ := hs.cell_y
  rw [TermCtx.cell]
  omega

/-- Clearing the screen blanks all cells. -/
theorem look_clear (hw : ctx.screenWidth = 1280) (hh : ctx.screenHeight = 800) (hn : n < 4000)
    (hdx : dx < 16) (hdy : dy < 16) : (termClearScreen ctx).look n dx dy = colorBg := by
  have hlt : ctx.pixel (16 * (n % 80) + dx) (16 * (n / 80) + dy) < ctx.words :=
    TermCtx.pixel_lt (by rw [hw]; omega) (by rw [hh]; omega)
  have hstore := @TermCtx.look_store ctx ((List.range ctx.words).map (·, colorBg)) n dx dy
    (fun _ => colorBg) (List.forall_mem_map.2 fun _ _ => rfl)
  rw [if_pos (by simpa [Function.comp_def] using hlt)] at hstore
  exact hstore

/-- The cell before the cursor is cleared. -/
theorem look_backspace (hs : ctx.AtCell 1280 800) (hx : ctx.cursorX + 16 ≤ 1280)
    (h16 : 16 ≤ ctx.cursorX) (hdx : dx < 16) (hdy : dy < 16) :
    (backspace ctx).look n dx dy = if n + 1 = ctx.cell then colorBg else ctx.look n dx dy := by
  obtain ⟨kx, hkx⟩ := hs.cell_x
  obtain ⟨ky, hky⟩ := hs.cell_y
  have hcell : ctx.cell = 80 * ky + kx := by
    rw [TermCtx.cell]
    omega
  rw [backspace, if_pos h16]
  refine (TermCtx.look_store (g := fun _ => colorBg) ?_).trans (if_congr ?_ rfl rfl)
  · intro s hmem
    obtain ⟨dy', -, hmem⟩ := List.mem_flatMap.1 hmem
    obtain ⟨dx', -, rfl⟩ := List.mem_map.1 hmem
    rfl
  · have hmem : (TermCtx.pixel { ctx with cursorX := ctx.cursorX - 16 } (16 * (n % 80) + dx)
        (16 * (n / 80) + dy)) ∈ ((List.range 16).flatMap fun dy' => (List.range 16).map fun dx' =>
          (TermCtx.pixel { ctx with cursorX := ctx.cursorX - 16 } (ctx.cursorX - 16 + dx')
            (ctx.cursorY + dy'), colorBg)).map Prod.fst ↔
        ∃ dy' < 16, ∃ dx' < 16, (ctx.cursorY + dy') * 1280 + (ctx.cursorX - 16 + dx') =
          (16 * (n / 80) + dy) * 1280 + (16 * (n % 80) + dx) := by
      simp [TermCtx.pixel, hs.width_eq]
    refine hmem.trans ⟨?_, fun h => ⟨dy, hdy, dx, hdx, by omega⟩⟩
    rintro ⟨dy', hdy', dx', hdx', h⟩
    omega

/-- The pixels of a glyph, by the cell it is drawn in. -/
theorem mem_glyphPixels (c : UInt8) (x y : ℕ) (p : ℕ × ℕ) :
    p ∈ glyphPixels (font8x8 (c.toNat - 32)) x y ↔
      ∃ dx < 16, ∃ dy < 16, p = (x + dx, y + dy) ∧ glyphBit font8x8 c dx dy := by
  simp only [glyphPixels, List.mem_flatMap, List.mem_range, glyphBit]
  constructor
  · rintro ⟨row, hrow, col, hcol, hp⟩
    split_ifs at hp with hbit
    · obtain ⟨dy, hdy, hp⟩ := List.mem_flatMap.1 hp
      obtain ⟨dx, hdx, rfl⟩ := List.mem_map.1 hp
      rw [List.mem_range] at hdx hdy
      refine ⟨col * 2 + dx, by omega, row * 2 + dy, by omega, by simp only [Nat.add_assoc], ?_⟩
      rw [show (row * 2 + dy) / 2 = row by omega, show (col * 2 + dx) / 2 = col by omega]
      exact hbit
    · exact absurd hp List.not_mem_nil
  · rintro ⟨dx, hdx, dy, hdy, rfl, hbit⟩
    refine ⟨dy / 2, by omega, dx / 2, by omega, ?_⟩
    rw [if_pos hbit]
    refine List.mem_flatMap.2 ⟨dy % 2, List.mem_range.2 (Nat.mod_lt _ (by decide)), ?_⟩
    refine List.mem_map.2 ⟨dx % 2, List.mem_range.2 (Nat.mod_lt _ (by decide)), ?_⟩
    rw [Prod.mk.injEq]
    omega

/-- A glyph is drawn over the cell of the cursor. -/
theorem look_termDrawChar (hs : ctx.AtCell 1280 800) (hx : ctx.cursorX + 16 ≤ 1280)
    (hy : ctx.cursorY + 16 ≤ 800) {c : UInt8} (hc : 32 ≤ c ∧ c ≤ 126) (hdx : dx < 16)
    (hdy : dy < 16) :
    (termDrawChar font8x8 ctx c ctx.cursorX ctx.cursorY).look n dx dy =
      if n = ctx.cell ∧ glyphBit font8x8 c dx dy then colorFg else ctx.look n dx dy := by
  obtain ⟨hrow, hcol⟩ := hs.corner hx
  have hprint : ¬ (c < 32 ∨ 126 < c) := by
    rw [not_or, UInt8.not_lt, UInt8.not_lt]
    exact hc
  rw [termDrawChar, if_neg hprint]
  refine (TermCtx.look_store (g := fun _ => colorFg) ?_).trans (if_congr ?_ rfl rfl)
  · exact List.forall_mem_map.2 fun _ _ => rfl
  · simp only [List.map_map, List.mem_map, List.mem_filter, mem_glyphPixels, hs.width_eq,
      hs.height_eq, decide_eq_true_eq, Function.comp_apply, TermCtx.pixel]
    constructor
    · rintro ⟨p, ⟨⟨dx', hdx', dy', hdy', rfl, hbit⟩, -⟩, h⟩
      rw [← hrow, ← hcol] at h
      obtain ⟨hn, rfl, rfl⟩ := cell_pixel_inj hdx' hdy' hdx hdy h
      exact ⟨hn.symm, hbit⟩
    · rintro ⟨rfl, hbit⟩
      refine ⟨(ctx.cursorX + dx, ctx.cursorY + dy), ⟨⟨dx, hdx, dy, hdy, rfl, hbit⟩, ?_⟩, ?_⟩
      · simp only
        omega
      · simp only [hrow, hcol]

/-- Scrolling takes each cell one row up and blanks the last row. -/
theorem look_termScroll (hs : ctx.AtCell 1280 800) (hn : n < 4000) (hdx : dx < 16) (hdy : dy < 16) :
    (termScroll ctx).look n dx dy = if n < 3920 then ctx.look (n + 80) dx dy else colorBg := by
  have hrow : (16 * (n / 80 + 1) + dy) * 1280 = (16 * (n / 80) + dy) * 1280 + 1280 * 16 := by
    generalize n / 80 = q
    omega
  have hpixel : ctx.pixel (16 * (n % 80) + dx) (16 * (n / 80) + dy) =
      (16 * (n / 80) + dy) * 1280 + (16 * (n % 80) + dx) := by
    rw [TermCtx.pixel, hs.width_eq]
  have hbelow : ctx.look (n + 80) dx dy =
      ctx.framebuffer (ctx.pixel (16 * (n % 80) + dx) (16 * (n / 80) + dy) + ctx.screenWidth * 16) := by
    rw [TermCtx.look, hpixel, TermCtx.pixel, hs.width_eq, Nat.add_mod_right,
      Nat.add_div_right n (by decide), hrow, Nat.add_right_comm]
  have hmove : ctx.screenWidth * (ctx.screenHeight - 16) = 1003520 := by
    rw [hs.width_eq, hs.height_eq]
  have hwords : ctx.words = 1024000 := by rw [TermCtx.words, hs.width_eq, hs.height_eq]
  have hlast : (termScroll ctx).look n dx dy =
      if ctx.pixel (16 * (n % 80) + dx) (16 * (n / 80) + dy) ∈
        ((List.range' (ctx.screenWidth * (ctx.screenHeight - 16)) (ctx.words -
          ctx.screenWidth * (ctx.screenHeight - 16))).map (·, colorBg)).map Prod.fst then colorBg
      else (ctx.store ((List.range (ctx.screenWidth * (ctx.screenHeight - 16))).map fun i =>
        (i, ctx.framebuffer (i + ctx.screenWidth * 16)))).look n dx dy :=
    TermCtx.look_store (g := fun _ => colorBg) (List.forall_mem_map.2 fun _ _ => rfl)
  have hfirst := @TermCtx.look_store ctx ((List.range (ctx.screenWidth *
    (ctx.screenHeight - 16))).map fun i => (i, ctx.framebuffer (i + ctx.screenWidth * 16))) n dx dy
    (fun i => ctx.framebuffer (i + ctx.screenWidth * 16)) (List.forall_mem_map.2 fun _ _ => rfl)
  rw [hlast, hfirst, hmove, hwords, ← hbelow]
  simp only [List.map_map, Function.comp_def, List.map_id', List.mem_range'_1, List.mem_range, hpixel]
  by_cases hlow : n < 3920
  · rw [if_neg (by omega), if_pos (by omega), if_pos hlow]
  · rw [if_pos (by omega), if_neg hlow]

/-! ### The cursor -/

theorem cell_newline (hs : ctx.AtCell 1280 800) :
    (newline ctx).cell = 80 * (ctx.cursorY / 16 + 1) := by
  obtain ⟨ky, hky⟩ := hs.cell_y
  simp only [newline, TermCtx.cell]
  omega

theorem cell_backspace (h16 : 16 ≤ ctx.cursorX) : (backspace ctx).cell + 1 = ctx.cell := by
  rw [backspace, if_pos h16]
  simp only [TermCtx.store, TermCtx.cell]
  omega

/-- A character takes one cell, at the end of a row too. -/
theorem cell_advance (hs : ctx.AtCell 1280 800) (hx : ctx.cursorX + 16 ≤ 1280) (c : UInt8) :
    (advance font8x8 ctx c).cell = ctx.cell + 1 := by
  obtain ⟨kx, hkx⟩ := hs.cell_x
  obtain ⟨hw, -, hx', hy'⟩ := @termDrawChar_ctx ctx font8x8 c ctx.cursorX ctx.cursorY
  unfold advance
  simp only [hw, hx', hs.width_eq]
  split_ifs
  · simp only [newline, hy', TermCtx.cell]
    omega
  · simp only [hy', TermCtx.cell]
    omega

theorem look_advance (c : UInt8) : (advance font8x8 ctx c).look n dx dy =
    (termDrawChar font8x8 ctx c ctx.cursorX ctx.cursorY).look n dx dy := by
  unfold advance
  simp only
  split_ifs <;> rfl

/-! ### Blank behind the cursor -/

/-- The cells from the cursor on are blank. -/
def TermCtx.BlankBehind (ctx : TermCtx) : Prop :=
  ∀ n, ctx.cell ≤ n → n < 4000 → ∀ dx < 16, ∀ dy < 16, ctx.look n dx dy = colorBg

/-- A page with the cursor on it, or in the row below it. -/
structure TermCtx.OnPage (ctx : TermCtx) : Prop extends ctx.AtCell 1280 800 where
  x_le : ctx.cursorX + 16 ≤ 1280
  y_le : ctx.cursorY ≤ 800
  blank : ctx.BlankBehind

/-- The page between two calls. -/
structure TermCtx.Page (ctx : TermCtx) : Prop extends ctx.OnPage where
  fits : ctx.cursorY + 16 ≤ 800

/-- The rows that the end of `term_putc` scrolls. -/
def TermCtx.rowsBelow (ctx : TermCtx) : ℕ := if ctx.screenHeight < ctx.cursorY + 16 then 1 else 0

theorem TermCtx.OnPage.cell_lt (h : ctx.OnPage) (hy : ctx.cursorY + 16 ≤ 800) : ctx.cell < 4000 := by
  have hx := h.x_le
  rw [TermCtx.cell]
  omega

theorem TermCtx.Page.x_char (h : ctx.Page) (c : UInt8) :
    (termChar font8x8 ctx c).cursorX + 16 ≤ 1280 := by
  have hx := h.x_le
  unfold termChar
  split_ifs
  · simp [newline]
  · unfold backspace
    split_ifs
    · simp only [TermCtx.store]
      omega
    · exact hx
  · obtain ⟨hw, -, hx', -⟩ := @termDrawChar_ctx ctx font8x8 c ctx.cursorX ctx.cursorY
    unfold advance
    simp only [hw, hx', h.width_eq]
    split_ifs with hend
    · simp [newline]
    · simp only
      omega

/-- A character writes no cell from the new cursor on. -/
theorem TermCtx.Page.blank_char (h : ctx.Page) (c : UInt8) :
    (termChar font8x8 ctx c).BlankBehind := by
  have hx := h.x_le
  intro n hcell hn dx hdx dy hdy
  unfold termChar at hcell ⊢
  split_ifs at hcell ⊢
  · rw [cell_newline h.toAtCell] at hcell
    refine h.blank n ?_ hn dx hdx dy hdy
    rw [TermCtx.cell]
    omega
  · by_cases h16 : 16 ≤ ctx.cursorX
    · have hback := cell_backspace h16
      rw [look_backspace h.toAtCell hx h16 hdx hdy]
      split_ifs
      · rfl
      · exact h.blank n (by omega) hn dx hdx dy hdy
    · rw [backspace, if_neg h16] at hcell ⊢
      exact h.blank n hcell hn dx hdx dy hdy
  · rw [cell_advance h.toAtCell hx] at hcell
    rw [look_advance]
    by_cases hc : 32 ≤ c ∧ c ≤ 126
    · rw [look_termDrawChar h.toAtCell hx h.fits hc hdx hdy, if_neg (by omega)]
      exact h.blank n (by omega) hn dx hdx dy hdy
    · have hprint : c < 32 ∨ 126 < c := by
        rw [← UInt8.not_le, ← UInt8.not_le]
        exact not_and_or.1 hc
      rw [termDrawChar, if_pos hprint]
      exact h.blank n (by omega) hn dx hdx dy hdy

/-- What a character leaves before the scroll. -/
theorem TermCtx.Page.char (h : ctx.Page) (c : UInt8) : (termChar font8x8 ctx c).OnPage := by
  have hm := @moved_termChar ctx font8x8 h.cell_x h.cell_y c
  have hy := hm.y_le
  have hfits := h.fits
  exact ⟨⟨hm.width.trans h.width_eq, hm.height.trans h.height_eq, hm.cell_x, hm.cell_y⟩, h.x_char c,
    by omega, h.blank_char c⟩

/-- The screen scrolls when the cursor is behind the last cell. -/
theorem TermCtx.OnPage.rows (h : ctx.OnPage) :
    ctx.rowsBelow = 0 ∨ ctx.rowsBelow = 1 ∧ 4000 ≤ ctx.cell := by
  obtain ⟨ky, hky⟩ := h.cell_y
  have hy := h.y_le
  rw [TermCtx.rowsBelow, TermCtx.cell, h.height_eq]
  split_ifs
  · omega
  · exact .inl rfl

/-- The cursor after the scroll. -/
theorem TermCtx.OnPage.cell_fit (h : ctx.OnPage) :
    (termFit ctx).cell + 80 * ctx.rowsBelow = ctx.cell := by
  obtain ⟨ky, hky⟩ := h.cell_y
  have hy := h.y_le
  rw [termFit, TermCtx.rowsBelow, h.height_eq]
  split_ifs
  · simp only [termScroll, TermCtx.store, TermCtx.cell]
    omega
  · rfl

/-- The cells after the scroll. -/
theorem TermCtx.OnPage.look_fit (h : ctx.OnPage) (hn : n < 4000) (hdx : dx < 16) (hdy : dy < 16) :
    (termFit ctx).look n dx dy =
      if n + 80 * ctx.rowsBelow < 4000 then ctx.look (n + 80 * ctx.rowsBelow) dx dy else colorBg := by
  rw [termFit, TermCtx.rowsBelow]
  split_ifs
  · rw [look_termScroll h.toAtCell hn hdx hdy, if_pos (by omega)]
  · rw [look_termScroll h.toAtCell hn hdx hdy, if_neg (by omega)]
  · rfl
  · omega

theorem TermCtx.OnPage.fit (h : ctx.OnPage) : (termFit ctx).Page := by
  obtain ⟨ky, hky⟩ := h.cell_y
  have hy := h.y_le
  have hblank : (termFit ctx).BlankBehind := by
    intro n hcell hn dx hdx dy hdy
    have hfit := h.cell_fit
    rw [h.look_fit hn hdx hdy]
    split_ifs with hlow
    · exact h.blank _ (by omega) hlow dx hdx dy hdy
    · rfl
  unfold termFit at hblank ⊢
  split_ifs at hblank ⊢ with hlow
  · refine ⟨⟨⟨h.width_eq, h.height_eq, h.cell_x, ?_⟩, h.x_le, ?_, hblank⟩, ?_⟩
    · exact Nat.dvd_sub h.cell_y (Nat.dvd_refl 16)
    · simp only [termScroll, TermCtx.store]
      omega
    · simp only [termScroll, TermCtx.store]
      omega
  · rw [h.height_eq] at hlow
    exact ⟨h, by omega⟩

/-- **The cells from the cursor on are blank whatever is printed.** -/
theorem page_terminal (font8x8 : ℕ → ℕ → ℕ) (framebuffer : ℕ → ℕ) (ops : List TermOp) :
    (terminal font8x8 framebuffer ops).Page := by
  have hclear (ctx : TermCtx) (hw : ctx.screenWidth = 1280) (hh : ctx.screenHeight = 800) :
      (termClearScreen ctx).Page := by
    refine ⟨⟨⟨hw, hh, Nat.dvd_zero 16, Nat.dvd_zero 16⟩, by simp [termClearScreen],
      by simp [termClearScreen], fun n _ hn dx hdx dy hdy => ?_⟩, by simp [termClearScreen]⟩
    exact look_clear hw hh hn hdx hdy
  refine run_keeps (fun ctx op (h : ctx.Page) => ?_) (hclear _ rfl rfl) ops
  cases op with
  | clear => exact hclear ctx h.width_eq h.height_eq
  | putc c => exact (h.char c).fit

end

end Shell
end AiOsExchange
