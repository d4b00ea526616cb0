/-
# The terminal in words of 32 bits

The functions of `Terminal.lean` again, with the arithmetic of `uint32_t` and for a screen of any
size.

| source | here |
| --- | --- |
| `a + b`, `a * b` | `add32 a b`, `mul32 a b`, modulo 2^32 |
| `a - b` | `sub32 a b`, which is `none` where the difference wraps |

A glyph is clipped to the screen; clearing the cell before the cursor and scrolling are not.  They
stay inside because the cursor stands at a cell of 16 by 16 pixels inside the screen
(`TermCtx.Fits`).  From there no difference wraps, no sum or product reaches 2^32, and the functions
are those over ℕ (`termStep_eq`).
-/

import AiOsExchange.Shell.Terminal

namespace AiOsExchange
namespace Shell

open Runs

/-! ### The arithmetic -/

def add32 (a b : ℕ) : ℕ := (a + b) % 2 ^ 32

def mul32 (a b : ℕ) : ℕ := a * b % 2 ^ 32

/-- A difference that does not wrap. -/
def sub32 (a b : ℕ) : Option ℕ := if b ≤ a then some (a - b) else none

theorem add32_eq {a b : ℕ} (h : a + b < 2 ^ 32) : add32 a b = a + b := Nat.mod_eq_of_lt h

theorem mul32_eq {a b : ℕ} (h : a * b < 2 ^ 32) : mul32 a b = a * b := Nat.mod_eq_of_lt h

theorem sub32_eq {a b : ℕ} (h : b ≤ a) : sub32 a b = some (a - b) := if_pos h

/-! ### The functions -/

namespace Words

/-- `py * ctx->screen_width + px`. -/
def pixel (ctx : TermCtx) (px py : ℕ) : ℕ := add32 (mul32 py ctx.screenWidth) px

/-- `term_clear_screen`. -/
def termClearScreen (ctx : TermCtx) : TermCtx :=
  { ctx.store ((List.range (mul32 ctx.screenWidth ctx.screenHeight)).map (·, colorBg)) with
    cursorX := 0, cursorY := 0 }

/-- `px` and `py` for the bits of a glyph. -/
def glyphPixels (glyph : ℕ → ℕ) (x y : ℕ) : List (ℕ × ℕ) :=
  (List.range 8).flatMap fun row => (List.range 8).flatMap fun col =>
    if (glyph row).testBit (7 - col) then
      (List.range 2).flatMap fun dy => (List.range 2).map fun dx =>
        (add32 (add32 x (col * 2)) dx, add32 (add32 y (row * 2)) dy)
    else []

/-- `term_draw_char`. -/
def termDrawChar (font8x8 : ℕ → ℕ → ℕ) (ctx : TermCtx) (c : UInt8) (x y : ℕ) : TermCtx :=
  if c < 32 ∨ 126 < c then ctx
  else
    ctx.store (((glyphPixels (font8x8 (c.toNat - 32)) x y).filter fun p =>
      p.1 < ctx.screenWidth ∧ p.2 < ctx.screenHeight).map fun p => (pixel ctx p.1 p.2, colorFg))

/-- `term_scroll`; a word is read before it is stored. -/
def termScroll (ctx : TermCtx) : Option TermCtx :=
  (sub32 ctx.screenHeight 16).bind fun rows =>
    let wordsToMove := mul32 ctx.screenWidth rows
    let words := mul32 ctx.screenWidth ctx.screenHeight
    let ctx := ctx.store ((List.range wordsToMove).map fun i =>
      (i, ctx.framebuffer (i + mul32 ctx.screenWidth 16)))
    let ctx := ctx.store ((List.range' wordsToMove (words - wordsToMove)).map (·, colorBg))
    (sub32 ctx.cursorY 16).map fun cursorY => { ctx with cursorY := cursorY }

/-- `'\n'`. -/
def newline (ctx : TermCtx) : TermCtx :=
  { ctx with cursorX := 0, cursorY := add32 ctx.cursorY 16 }

/-- `'\b'`. -/
def backspace (ctx : TermCtx) : Option TermCtx :=
  if 16 ≤ ctx.cursorX then
    (sub32 ctx.cursorX 16).map fun cursorX =>
      let ctx := { ctx with cursorX := cursorX }
      ctx.store ((List.range 16).flatMap fun dy => (List.range 16).map fun dx =>
        (pixel ctx (add32 ctx.cursorX dx) (add32 ctx.cursorY dy), colorBg))
  else some ctx

/-- Any other character. -/
def advance (font8x8 : ℕ → ℕ → ℕ) (ctx : TermCtx) (c : UInt8) : TermCtx :=
  let ctx := termDrawChar font8x8 ctx c ctx.cursorX ctx.cursorY
  let ctx := { ctx with cursorX := add32 ctx.cursorX 16 }
  if ctx.screenWidth < add32 ctx.cursorX 16 then newline ctx else ctx

/-- `term_putc`. -/
def termPutc (font8x8 : ℕ → ℕ → ℕ) (ctx : TermCtx) (c : UInt8) : Option TermCtx :=
  (if c = 10 then some (newline ctx) else if c = 8 then backspace ctx
    else some (advance font8x8 ctx c)).bind fun ctx =>
  if ctx.screenHeight < add32 ctx.cursorY 16 then termScroll ctx else some ctx

def termStep (font8x8 : ℕ → ℕ → ℕ) (ctx : TermCtx) : TermOp → Option TermCtx
  | .clear => some (termClearScreen ctx)
  | .putc c => termPutc font8x8 ctx c

end Words

/-! ### A cursor at a cell -/

/-- `term_putc` up to the scroll. -/
def termChar (font8x8 : ℕ → ℕ → ℕ) (ctx : TermCtx) (c : UInt8) : TermCtx :=
  if c = 10 then newline ctx else if c = 8 then backspace ctx else advance font8x8 ctx c

/-- The end of `term_putc`. -/
def termFit (ctx : TermCtx) : TermCtx :=
  if ctx.screenHeight < ctx.cursorY + 16 then termScroll ctx else ctx

/-- The screen has less than 2^32 words and the cursor stands at a cell inside it. -/
structure TermCtx.Fits (ctx : TermCtx) : Prop extends ctx.Inside where
  words_lt : ctx.words < 2 ^ 32
  cell_x : 16 ∣ ctx.cursorX
  cell_y : 16 ∣ ctx.cursorY

section
variable {ctx : TermCtx} {font8x8 : ℕ → ℕ → ℕ}

/-- Width and height of a screen that has a cell. -/
theorem TermCtx.Fits.size_lt (h : ctx.Fits) :
    ctx.screenWidth < 2 ^ 28 ∧ ctx.screenHeight < 2 ^ 28 := by
  have hx := h.x
  have hy := h.y
  have hwords := h.words_lt
  rw [TermCtx.words] at hwords
  have hw := Nat.mul_le_mul_left ctx.screenWidth (show 16 ≤ ctx.screenHeight by omega)
  have hh := Nat.mul_le_mul_right ctx.screenHeight (show 16 ≤ ctx.screenWidth by omega)
  omega

theorem pixel_eq {px py : ℕ} (hx : px < ctx.screenWidth) (hy : py < ctx.screenHeight)
    (hwords : ctx.words < 2 ^ 32) : Words.pixel ctx px py = ctx.pixel px py := by
  have hlt := (TermCtx.pixel_lt hx hy).trans hwords
  rw [TermCtx.pixel] at hlt
  rw [Words.pixel, mul32_eq (by omega), add32_eq hlt, TermCtx.pixel]

theorem glyphPixels_eq (glyph : ℕ → ℕ) {x y : ℕ} (hx : x + 16 < 2 ^ 32) (hy : y + 16 < 2 ^ 32) :
    Words.glyphPixels glyph x y = glyphPixels glyph x y := by
  rw [Words.glyphPixels, glyphPixels]
  refine List.flatMap_congr fun row hrow => List.flatMap_congr fun col hcol => ?_
  rw [List.mem_range] at hrow hcol
  refine if_congr Iff.rfl ?_ rfl
  refine List.flatMap_congr fun dy hdy => List.map_congr_left fun dx hdx => ?_
  rw [List.mem_range] at hdy hdx
  rw [add32_eq (a := x) (by omega), add32_eq (a := y) (by omega), add32_eq (by omega),
    add32_eq (by omega)]

theorem TermCtx.Fits.termDrawChar_eq (h : ctx.Fits) (c : UInt8) :
    Words.termDrawChar font8x8 ctx c ctx.cursorX ctx.cursorY =
      termDrawChar font8x8 ctx c ctx.cursorX ctx.cursorY := by
  obtain ⟨hw, hh⟩ := h.size_lt
  have hx := h.x
  have hy := h.y
  rw [Words.termDrawChar, termDrawChar, glyphPixels_eq _ (by omega) (by omega)]
  refine if_congr Iff.rfl rfl ?_
  congr 1
  refine List.map_congr_left fun p hp => ?_
  have hin := of_decide_eq_true (List.mem_filter.1 hp).2
  rw [pixel_eq hin.1 hin.2 h.words_lt]

theorem TermCtx.Fits.termClearScreen_eq (h : ctx.Fits) :
    Words.termClearScreen ctx = termClearScreen ctx := by
  rw [Words.termClearScreen, mul32_eq h.words_lt]
  rfl

/-- Scrolling needs a line above the cursor. -/
theorem termScroll_eq (h16 : 16 ≤ ctx.screenHeight) (hwords : ctx.words < 2 ^ 32)
    (hy : 16 ≤ ctx.cursorY) : Words.termScroll ctx = some (termScroll ctx) := by
  rw [TermCtx.words] at hwords
  have hmove := Nat.mul_le_mul_left ctx.screenWidth (Nat.sub_le ctx.screenHeight 16)
  have hline := Nat.mul_le_mul_left ctx.screenWidth h16
  rw [Words.termScroll, sub32_eq h16, Option.bind_some, mul32_eq (by omega), mul32_eq hwords,
    mul32_eq (by omega)]
  simp only [TermCtx.store, sub32_eq hy, Option.map_some]
  rfl

theorem TermCtx.Fits.backspace_eq (h : ctx.Fits) :
    Words.backspace ctx = some (backspace ctx) := by
  obtain ⟨hw, hh⟩ := h.size_lt
  have hx := h.x
  have hy := h.y
  rw [Words.backspace, backspace]
  split_ifs with h16
  · rw [sub32_eq h16, Option.map_some]
    refine congrArg
      (fun stores => some (TermCtx.store { ctx with cursorX := ctx.cursorX - 16 } stores)) ?_
    refine List.flatMap_congr fun dy hdy => List.map_congr_left fun dx hdx => ?_
    rw [List.mem_range] at hdy hdx
    simp only
    rw [add32_eq (show ctx.cursorX - 16 + dx < 2 ^ 32 by omega), add32_eq (by omega)]
    congr 1
    exact pixel_eq (show ctx.cursorX - 16 + dx < ctx.screenWidth by omega)
      (show ctx.cursorY + dy < ctx.screenHeight by omega) h.words_lt
  · rfl

/-- The cursor is drawn at, then moved. -/
theorem TermCtx.Fits.advance_eq (h : ctx.Fits) (c : UInt8) :
    Words.advance font8x8 ctx c = advance font8x8 ctx c := by
  obtain ⟨hw, hh⟩ := h.size_lt
  have hx := h.x
  have hy := h.y
  obtain ⟨hw', -, hx', hy'⟩ := @termDrawChar_ctx ctx font8x8 c ctx.cursorX ctx.cursorY
  rw [Words.advance, advance, h.termDrawChar_eq c]
  simp only [hw', hx', add32_eq (show ctx.cursorX + 16 < 2 ^ 32 by omega),
    add32_eq (show ctx.cursorX + 16 + 16 < 2 ^ 32 by omega)]
  refine if_congr Iff.rfl ?_ rfl
  simp only [Words.newline, newline, hy', add32_eq (show ctx.cursorY + 16 < 2 ^ 32 by omega)]

/-- What a character makes of the context before the screen scrolls. -/
structure TermCtx.Moved (ctx ctx' : TermCtx) : Prop where
  width : ctx'.screenWidth = ctx.screenWidth
  height : ctx'.screenHeight = ctx.screenHeight
  cell_x : 16 ∣ ctx'.cursorX
  cell_y : 16 ∣ ctx'.cursorY
  y_le : ctx'.cursorY ≤ ctx.cursorY + 16

theorem moved_newline (hy : 16 ∣ ctx.cursorY) : ctx.Moved (newline ctx) :=
  ⟨rfl, rfl, Nat.dvd_zero 16, Nat.dvd_add_self_right.2 hy, Nat.le_refl _⟩

theorem moved_backspace (hx : 16 ∣ ctx.cursorX) (hy : 16 ∣ ctx.cursorY) :
    ctx.Moved (backspace ctx) := by
  unfold backspace
  split_ifs
  · exact ⟨rfl, rfl, Nat.dvd_sub hx (Nat.dvd_refl 16), hy, Nat.le_add_right _ 16⟩
  · exact ⟨rfl, rfl, hx, hy, Nat.le_add_right _ 16⟩

theorem moved_advance (hx : 16 ∣ ctx.cursorX) (hy : 16 ∣ ctx.cursorY) (c : UInt8) :
    ctx.Moved (advance font8x8 ctx c) := by
  obtain ⟨hw, hh, hx', hy'⟩ := @termDrawChar_ctx ctx font8x8 c ctx.cursorX ctx.cursorY
  unfold advance
  simp only
  split_ifs
  · refine ⟨hw, hh, Nat.dvd_zero 16, ?_, ?_⟩
    · rw [newline, hy']
      exact Nat.dvd_add_self_right.2 hy
    · rw [newline, hy']
  · refine ⟨hw, hh, ?_, ?_, ?_⟩
    · rw [hx']
      exact Nat.dvd_add_self_right.2 hx
    · rw [hy']
      exact hy
    · rw [hy']
      exact Nat.le_add_right _ 16

/-- A character moves the cursor from cell to cell, by one row at most. -/
theorem moved_termChar (hx : 16 ∣ ctx.cursorX) (hy : 16 ∣ ctx.cursorY) (c : UInt8) :
    ctx.Moved (termChar font8x8 ctx c) := by
  unfold termChar
  split_ifs
  · exact moved_newline hy
  · exact moved_backspace hx hy
  · exact moved_advance hx hy c

theorem TermCtx.Fits.moved (h : ctx.Fits) (c : UInt8) : ctx.Moved (termChar font8x8 ctx c) :=
  moved_termChar h.cell_x h.cell_y c

/-- The functions before the screen scrolls are those over ℕ. -/
theorem TermCtx.Fits.char_eq (h : ctx.Fits) (c : UInt8) :
    (if c = 10 then some (Words.newline ctx) else if c = 8 then Words.backspace ctx
        else some (Words.advance font8x8 ctx c)) =
      some (termChar font8x8 ctx c) := by
  unfold termChar
  split_ifs
  · obtain ⟨-, hh⟩ := h.size_lt
    have hy := h.y
    rw [Words.newline, newline, add32_eq (by omega)]
  · exact h.backspace_eq
  · rw [h.advance_eq]

/-- A cursor below the screen has a line above it, so the scroll does not wrap. -/
theorem TermCtx.Moved.scroll_eq {ctx' : TermCtx} (hm : ctx.Moved ctx') (h : ctx.Fits) :
    (if ctx'.screenHeight < add32 ctx'.cursorY 16 then Words.termScroll ctx' else some ctx') =
      some (termFit ctx') := by
  obtain ⟨hw, hh⟩ := h.size_lt
  have hy := h.y
  have hy' := hm.y_le
  have hheight := hm.height
  have hwords : ctx'.words < 2 ^ 32 := by
    rw [TermCtx.words, hm.width, hm.height]
    exact h.words_lt
  obtain ⟨k, hk⟩ := hm.cell_y
  rw [add32_eq (show ctx'.cursorY + 16 < 2 ^ 32 by omega), termFit]
  split_ifs with hlow
  · exact termScroll_eq (by omega) hwords (by omega)
  · rfl

/-- A cursor at a cell of a screen of this size. -/
structure TermCtx.AtCell (ctx : TermCtx) (width height : ℕ) : Prop where
  width_eq : ctx.screenWidth = width
  height_eq : ctx.screenHeight = height
  cell_x : 16 ∣ ctx.cursorX
  cell_y : 16 ∣ ctx.cursorY

theorem TermCtx.Moved.scrolled {ctx' : TermCtx} (hm : ctx.Moved ctx') :
    (termFit ctx').AtCell ctx.screenWidth ctx.screenHeight := by
  unfold termFit
  split_ifs
  · exact ⟨hm.width, hm.height, hm.cell_x, Nat.dvd_sub hm.cell_y (Nat.dvd_refl 16)⟩
  · exact ⟨hm.width, hm.height, hm.cell_x, hm.cell_y⟩

/-- One call of the shell in words of 32 bits is the one over ℕ. -/
theorem TermCtx.Fits.termStep_eq (h : ctx.Fits) (op : TermOp) :
    Words.termStep font8x8 ctx op = some (termStep font8x8 ctx op) := by
  cases op with
  | clear => exact congrArg some h.termClearScreen_eq
  | putc c =>
      rw [Words.termStep, Words.termPutc, h.char_eq c]
      exact (h.moved c).scroll_eq h

theorem TermCtx.Fits.atCell (h : ctx.Fits) (op : TermOp) :
    (termStep font8x8 ctx op).AtCell ctx.screenWidth ctx.screenHeight := by
  cases op with
  | clear => exact ⟨rfl, rfl, Nat.dvd_zero 16, Nat.dvd_zero 16⟩
  | putc c => exact (h.moved c).scrolled

/-- **One call keeps the cursor at a cell inside the screen.** -/
theorem TermCtx.Fits.step (h : ctx.Fits) (op : TermOp) : (termStep font8x8 ctx op).Fits := by
  have hcell := @TermCtx.Fits.atCell ctx font8x8 h op
  have hin : (termStep font8x8 ctx op).Inside := by
    cases op with
    | clear => exact h.toInside.clear
    | putc c => exact h.toInside.putc c
  refine ⟨hin, ?_, hcell.cell_x, hcell.cell_y⟩
  rw [termStep_words]
  exact h.words_lt

end

/-! ### Every run -/

/-- The screen of a run: the words stored are inside it and the cursor has a cell in it. -/
structure TermCtx.Drawn (ctx : TermCtx) (width height : ℕ) : Prop
    extends ctx.AtCell width height where
  written : ∀ i ∈ ctx.written, i < width * height
  x_le : ctx.cursorX + 16 ≤ width
  y_le : ctx.cursorY + 16 ≤ height

/-- A screen of this size after it is cleared, from any cursor. -/
def cleared (framebuffer : ℕ → ℕ) (width height cursorX cursorY : ℕ) : TermCtx :=
  Words.termClearScreen ⟨framebuffer, width, height, cursorX, cursorY, []⟩

section
variable {width height : ℕ}

theorem fits_cleared (framebuffer : ℕ → ℕ) (cursorX cursorY : ℕ) (hw : 16 ≤ width)
    (hh : 16 ≤ height) (hwords : width * height < 2 ^ 32) :
    (cleared framebuffer width height cursorX cursorY).Fits := by
  refine ⟨⟨?_, ?_, fun i hi => ?_⟩, hwords, Nat.dvd_zero 16, Nat.dvd_zero 16⟩
  · exact hw
  · exact hh
  · have hmem : i ∈ List.range (mul32 width height) := by
      simpa [cleared, Words.termClearScreen, TermCtx.store, Function.comp_def] using hi
    rw [mul32_eq hwords] at hmem
    exact List.mem_range.1 hmem

/-- **The terminal draws inside the framebuffer.**  On a screen of any size that has a cell and
less than 2^32 words, and with any font, every sequence of characters and clearings from a cleared
screen runs without a difference that wraps, stores words of the screen only, and leaves the cursor
at a cell inside it. -/
theorem terminal_drawn (hw : 16 ≤ width) (hh : 16 ≤ height) (hwords : width * height < 2 ^ 32)
    (font8x8 : ℕ → ℕ → ℕ) (framebuffer : ℕ → ℕ) (cursorX cursorY : ℕ) (ops : List TermOp) :
    ∃ ctx, ops.foldlM (Words.termStep font8x8) (cleared framebuffer width height cursorX cursorY) =
      some ctx ∧ ctx.Drawn width height := by
  have hstart := fits_cleared framebuffer cursorX cursorY hw hh hwords
  have hrun : ops.foldlM (Words.termStep font8x8)
      (cleared framebuffer width height cursorX cursorY) =
        some (run (termStep font8x8) (cleared framebuffer width height cursorX cursorY) ops) :=
    foldlM_eq_some_run (fun ctx op (h : ctx.Fits) => h.termStep_eq op)
      (fun ctx op h => h.step op) hstart ops
  have hstep (ctx : TermCtx) (op : TermOp) (h : ctx.Fits ∧ ctx.AtCell width height) :
      (termStep font8x8 ctx op).Fits ∧ (termStep font8x8 ctx op).AtCell width height := by
    obtain ⟨hfits, hcell⟩ := h
    refine ⟨hfits.step op, ?_⟩
    rw [← hcell.width_eq, ← hcell.height_eq]
    exact hfits.atCell op
  obtain ⟨hfits, hcell⟩ := run_keeps hstep
    (show (cleared framebuffer width height cursorX cursorY).Fits ∧ _ from
      ⟨hstart, rfl, rfl, Nat.dvd_zero 16, Nat.dvd_zero 16⟩) ops
  have hx := hfits.x
  have hy := hfits.y
  have hwritten := hfits.written
  rw [hcell.width_eq] at hx
  rw [hcell.height_eq] at hy
  rw [TermCtx.words, hcell.width_eq, hcell.height_eq] at hwritten
  exact ⟨_, hrun, hcell, hwritten, hx, hy⟩

/-- A screen of 40 by 24, which is not a number of cells wide or high. -/
theorem small_screen_drawn :
    ∃ ctx, [.putc 65, .putc 66, .putc 67, .putc 8, .putc 10].foldlM (Words.termStep fun _ _ => 255)
      (cleared (fun _ => 0) 40 24 0 0) = some ctx ∧ ctx.Drawn 40 24 :=
  terminal_drawn (by decide) (by decide) (by decide) (fun _ _ => 255) (fun _ => 0) 0 0
    [.putc 65, .putc 66, .putc 67, .putc 8, .putc 10]

/-- **The shell's screen**: the terminal over ℕ is the one in words of 32 bits. -/
theorem terminal_words (font8x8 : ℕ → ℕ → ℕ) (framebuffer : ℕ → ℕ) (ops : List TermOp) :
    ops.foldlM (Words.termStep font8x8) (cleared framebuffer 1280 800 0 0) =
      some (terminal font8x8 framebuffer ops) := by
  have hstart : (cleared framebuffer 1280 800 0 0).Fits :=
    fits_cleared framebuffer 0 0 (by decide) (by decide) (by decide)
  have hclear : cleared framebuffer 1280 800 0 0 = termClearScreen (shellCtx framebuffer) := by
    rw [cleared, Words.termClearScreen, mul32_eq (show 1280 * 800 < 2 ^ 32 by decide)]
    rfl
  rw [terminal, ← hclear]
  exact foldlM_eq_some_run (fun ctx op (h : ctx.Fits) => h.termStep_eq op)
    (fun ctx op h => h.step op) hstart ops

end

end Shell
end AiOsExchange
