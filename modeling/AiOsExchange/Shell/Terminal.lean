/-
# The terminal of the shell

`term_clear_screen` … `term_putc` of `modules/shell_gui/main.c`.  The context has a size of its own,
which `shell_main` sets to 1280 by 800, and the words are stored through the view at `0x20000000`.

| source | here |
| --- | --- |
| `ctx->framebuffer[i] = v` | a store `(i, v)`, made by `TermCtx.store` |
| `font8x8` | the variable `font8x8`: the results hold of every font |
| `'\b'`, `'\n'` in `term_putc` | `backspace`, `newline` |

`written` keeps which words were stored.  A character cell has 16 by 16 pixels.  The cursor stays
where such a cell is inside the screen (`TermCtx.Inside`), and so are all words that are stored.
-/

import AiOsExchange.Lib.Run
import Mathlib.Logic.Function.Basic

namespace AiOsExchange
namespace Shell

open Runs

/-- `COLOR_BG` and `COLOR_FG`. -/
def colorBg : ℕ := 0xFF1E1E1E

def colorFg : ℕ := 0xFF00FF00

/-- `term_ctx_t`, with the words stored so far. -/
structure TermCtx where
  framebuffer : ℕ → ℕ
  screenWidth : ℕ
  screenHeight : ℕ
  cursorX : ℕ
  cursorY : ℕ
  written : List ℕ

namespace TermCtx

/-- Stores to the framebuffer, from left to right. -/
def store (ctx : TermCtx) (stores : List (ℕ × ℕ)) : TermCtx :=
  { ctx with
    framebuffer := stores.foldl (fun fb s => Function.update fb s.1 s.2) ctx.framebuffer
    written := ctx.written ++ stores.map Prod.fst }

/-- The words of the screen. -/
def words (ctx : TermCtx) : ℕ := ctx.screenWidth * ctx.screenHeight

/-- The word of a pixel. -/
def pixel (ctx : TermCtx) (px py : ℕ) : ℕ := py * ctx.screenWidth + px

end TermCtx

/-! ### The functions -/

/-- `term_clear_screen`. -/
def termClearScreen (ctx : TermCtx) : TermCtx :=
  { ctx.store ((List.range ctx.words).map (·, colorBg)) with cursorX := 0, cursorY := 0 }

/-- The pixels of a glyph at `(x, y)`, two by two for each bit. -/
def glyphPixels (glyph : ℕ → ℕ) (x y : ℕ) : List (ℕ × ℕ) :=
  (List.range 8).flatMap fun row => (List.range 8).flatMap fun col =>
    if (glyph row).testBit (7 - col) then
      (List.range 2).flatMap fun dy => (List.range 2).map fun dx =>
        (x + col * 2 + dx, y + row * 2 + dy)
    else []

/-- `term_draw_char`; what is outside the screen is left out. -/
def termDrawChar (font8x8 : ℕ → ℕ → ℕ) (ctx : TermCtx) (c : UInt8) (x y : ℕ) : TermCtx :=
  if c < 32 ∨ 126 < c then ctx
  else
    ctx.store (((glyphPixels (font8x8 (c.toNat - 32)) x y).filter fun p =>
      p.1 < ctx.screenWidth ∧ p.2 < ctx.screenHeight).map fun p => (ctx.pixel p.1 p.2, colorFg))

/-- `term_scroll`: a word is read before it is stored, as the source is behind the destination. -/
def termScroll (ctx : TermCtx) : TermCtx :=
  let wordsToMove := ctx.screenWidth * (ctx.screenHeight - 16)
  let ctx := ctx.store ((List.range wordsToMove).map fun i =>
    (i, ctx.framebuffer (i + ctx.screenWidth * 16)))
  let ctx := ctx.store ((List.range' wordsToMove (ctx.words - wordsToMove)).map (·, colorBg))
  { ctx with cursorY := ctx.cursorY - 16 }

/-- `'\n'`. -/
def newline (ctx : TermCtx) : TermCtx :=
  { ctx with cursorX := 0, cursorY := ctx.cursorY + 16 }

/-- `'\b'`: the cell before the cursor is cleared. -/
def backspace (ctx : TermCtx) : TermCtx :=
  if 16 ≤ ctx.cursorX then
    let ctx := { ctx with cursorX := ctx.cursorX - 16 }
    ctx.store ((List.range 16).flatMap fun dy => (List.range 16).map fun dx =>
      (ctx.pixel (ctx.cursorX + dx) (ctx.cursorY + dy), colorBg))
  else ctx

/-- Any other character, and the cursor behind it. -/
def advance (font8x8 : ℕ → ℕ → ℕ) (ctx : TermCtx) (c : UInt8) : TermCtx :=
  let ctx := termDrawChar font8x8 ctx c ctx.cursorX ctx.cursorY
  let ctx := { ctx with cursorX := ctx.cursorX + 16 }
  if ctx.screenWidth < ctx.cursorX + 16 then newline ctx else ctx

/-- `term_putc`. -/
def termPutc (font8x8 : ℕ → ℕ → ℕ) (ctx : TermCtx) (c : UInt8) : TermCtx :=
  let ctx :=
    if c = 10 then newline ctx else if c = 8 then backspace ctx else advance font8x8 ctx c
  if ctx.screenHeight < ctx.cursorY + 16 then termScroll ctx else ctx

/-- What the shell calls; `term_print` calls `term_putc` for each character. -/
inductive TermOp
  | clear
  | putc (c : UInt8)

def termStep (font8x8 : ℕ → ℕ → ℕ) (ctx : TermCtx) : TermOp → TermCtx
  | .clear => termClearScreen ctx
  | .putc c => termPutc font8x8 ctx c

/-- The context as `shell_main` sets it. -/
def shellCtx (framebuffer : ℕ → ℕ) : TermCtx := ⟨framebuffer, 1280, 800, 0, 0, []⟩

/-- The terminal after `shell_main` cleared the screen and made these calls. -/
def terminal (font8x8 : ℕ → ℕ → ℕ) (framebuffer : ℕ → ℕ) (ops : List TermOp) : TermCtx :=
  run (termStep font8x8) (termClearScreen (shellCtx framebuffer)) ops

/-! ### Inside the screen -/

/-- The cursor has a cell inside the screen, and so are the words stored. -/
structure TermCtx.Inside (ctx : TermCtx) : Prop where
  x : ctx.cursorX + 16 ≤ ctx.screenWidth
  y : ctx.cursorY + 16 ≤ ctx.screenHeight
  written : ∀ i ∈ ctx.written, i < ctx.words

section
variable {ctx : TermCtx} {stores : List (ℕ × ℕ)} {font8x8 : ℕ → ℕ → ℕ}

theorem TermCtx.pixel_lt {px py : ℕ} (hx : px < ctx.screenWidth) (hy : py < ctx.screenHeight) :
    ctx.pixel px py < ctx.words := by
  have hrow := Nat.mul_le_mul_right ctx.screenWidth (show py + 1 ≤ ctx.screenHeight from hy)
  rw [Nat.add_mul, Nat.one_mul] at hrow
  rw [TermCtx.pixel, TermCtx.words, Nat.mul_comm ctx.screenWidth]
  omega

/-- Stores inside the screen. -/
theorem TermCtx.written_store (h : ∀ i ∈ ctx.written, i < ctx.words)
    (hs : ∀ s ∈ stores, s.1 < ctx.words) : ∀ i ∈ (ctx.store stores).written, i < ctx.words := by
  intro i hi
  rcases List.mem_append.1 hi with hi | hi
  · exact h i hi
  · obtain ⟨s, hmem, rfl⟩ := List.mem_map.1 hi
    exact hs s hmem

theorem TermCtx.Inside.store (h : ctx.Inside) (hs : ∀ s ∈ stores, s.1 < ctx.words) :
    (ctx.store stores).Inside := ⟨h.x, h.y, TermCtx.written_store h.written hs⟩

theorem TermCtx.Inside.clear (h : ctx.Inside) : (termClearScreen ctx).Inside := by
  have hx := h.x
  have hy := h.y
  refine ⟨by simp only [termClearScreen, TermCtx.store]; omega,
    by simp only [termClearScreen, TermCtx.store]; omega, ?_⟩
  refine TermCtx.written_store h.written fun s hs => ?_
  obtain ⟨i, hi, rfl⟩ := List.mem_map.1 hs
  exact List.mem_range.1 hi

theorem TermCtx.Inside.drawChar (h : ctx.Inside) (c : UInt8) (x y : ℕ) :
    (termDrawChar font8x8 ctx c x y).Inside := by
  unfold termDrawChar
  split_ifs
  · exact h
  · refine h.store fun s hs => ?_
    obtain ⟨p, hp, rfl⟩ := List.mem_map.1 hs
    obtain ⟨hx, hy⟩ : p.1 < ctx.screenWidth ∧ p.2 < ctx.screenHeight := by
      simpa using (List.mem_filter.1 hp).2
    exact TermCtx.pixel_lt hx hy

theorem termDrawChar_ctx (c : UInt8) (x y : ℕ) :
    (termDrawChar font8x8 ctx c x y).screenWidth = ctx.screenWidth ∧
      (termDrawChar font8x8 ctx c x y).screenHeight = ctx.screenHeight ∧
      (termDrawChar font8x8 ctx c x y).cursorX = ctx.cursorX ∧
      (termDrawChar font8x8 ctx c x y).cursorY = ctx.cursorY := by
  unfold termDrawChar
  split_ifs <;> exact ⟨rfl, rfl, rfl, rfl⟩

/-- The cell before the cursor is inside the screen. -/
theorem TermCtx.Inside.backspace (h : ctx.Inside) : (backspace ctx).Inside := by
  have hx := h.x
  have hy := h.y
  unfold Shell.backspace
  split_ifs with h16
  · refine ⟨by simp only [TermCtx.store]; omega, hy, ?_⟩
    refine @TermCtx.written_store { ctx with cursorX := ctx.cursorX - 16 } _ h.written
      fun s hs => ?_
    obtain ⟨dy, hdy, hs⟩ := List.mem_flatMap.1 hs
    obtain ⟨dx, hdx, rfl⟩ := List.mem_map.1 hs
    rw [List.mem_range] at hdy hdx
    exact TermCtx.pixel_lt (by simp only; omega) (by simp only; omega)
  · exact h

/-- Scrolling keeps all words inside, whatever the cursor. -/
theorem written_termScroll (h : ∀ i ∈ ctx.written, i < ctx.words) :
    ∀ i ∈ (termScroll ctx).written, i < ctx.words := by
  have hle : ctx.screenWidth * (ctx.screenHeight - 16) ≤ ctx.words :=
    Nat.mul_le_mul_left _ (Nat.sub_le _ _)
  refine @TermCtx.written_store (ctx.store _) _ (TermCtx.written_store h fun s hs => ?_)
    fun s hs => ?_
  · obtain ⟨i, hi, rfl⟩ := List.mem_map.1 hs
    have := List.mem_range.1 hi
    simp only
    omega
  · obtain ⟨i, hi, rfl⟩ := List.mem_map.1 hs
    have := List.mem_range'_1.1 hi
    have hwords : (ctx.store ((List.range (ctx.screenWidth * (ctx.screenHeight - 16))).map fun i =>
      (i, ctx.framebuffer (i + ctx.screenWidth * 16)))).words = ctx.words := rfl
    simp only
    omega

/-- A cursor at most one line below the screen is back on it after the scroll. -/
theorem inside_of_below {ctx : TermCtx} (hx : ctx.cursorX + 16 ≤ ctx.screenWidth)
    (hy : ctx.cursorY ≤ ctx.screenHeight) (h16 : 16 ≤ ctx.screenHeight)
    (hw : ∀ i ∈ ctx.written, i < ctx.words) :
    (if ctx.screenHeight < ctx.cursorY + 16 then termScroll ctx else ctx).Inside := by
  split_ifs with hlow
  · exact ⟨hx, by simp only [termScroll, TermCtx.store]; omega, written_termScroll hw⟩
  · exact ⟨hx, by omega, hw⟩

/-- **A character is drawn inside the screen**, and the cursor stays there. -/
theorem TermCtx.Inside.putc (h : ctx.Inside) (c : UInt8) : (termPutc font8x8 ctx c).Inside := by
  have hx := h.x
  have hy := h.y
  unfold termPutc
  split_ifs with hnl hbs
  · exact @inside_of_below (newline ctx) (by simp only [newline]; omega)
      (by simp only [newline]; omega) (by simp only [newline]; omega) h.written
  · have hb := h.backspace
    have hy' := hb.y
    exact inside_of_below hb.x (by omega) (by omega) hb.written
  · obtain ⟨hw', hh', hx', hy'⟩ := @termDrawChar_ctx ctx font8x8 c ctx.cursorX ctx.cursorY
    have hd := (@TermCtx.Inside.drawChar ctx font8x8 h c ctx.cursorX ctx.cursorY).written
    have hadv : (advance font8x8 ctx c).cursorX + 16 ≤ (advance font8x8 ctx c).screenWidth ∧
        (advance font8x8 ctx c).cursorY ≤ (advance font8x8 ctx c).screenHeight ∧
        16 ≤ (advance font8x8 ctx c).screenHeight ∧
        ∀ i ∈ (advance font8x8 ctx c).written, i < (advance font8x8 ctx c).words := by
      unfold advance
      simp only
      split_ifs with hend
      · exact ⟨by simp only [newline]; omega, by simp only [newline]; omega,
          by simp only [newline]; omega, hd⟩
      · exact ⟨by simp only; omega, by simp only; omega, by simp only; omega, hd⟩
    exact inside_of_below hadv.1 hadv.2.1 hadv.2.2.1 hadv.2.2.2

/-- The size of the screen stays. -/
theorem termStep_words (op : TermOp) : (termStep font8x8 ctx op).words = ctx.words := by
  have hscroll (ctx : TermCtx) :
      (if ctx.screenHeight < ctx.cursorY + 16 then termScroll ctx else ctx).words = ctx.words := by
    split_ifs <;> rfl
  cases op with
  | clear => rfl
  | putc c =>
      rw [termStep, termPutc, hscroll]
      split_ifs
      · rfl
      · unfold Shell.backspace
        split_ifs <;> rfl
      · obtain ⟨hw, hh, -, -⟩ := @termDrawChar_ctx ctx font8x8 c ctx.cursorX ctx.cursorY
        have hdraw : (termDrawChar font8x8 ctx c ctx.cursorX ctx.cursorY).words = ctx.words := by
          rw [TermCtx.words, hw, hh, TermCtx.words]
        unfold advance
        simp only
        split_ifs <;> exact hdraw

end

/-- The words that clearing the screen stores. -/
theorem mem_written_clear (framebuffer : ℕ → ℕ) {i : ℕ} :
    i ∈ (termClearScreen (shellCtx framebuffer)).written ↔ i < 1280 * 800 := by
  have hwritten (ctx : TermCtx) :
      (termClearScreen ctx).written = ctx.written ++ List.range ctx.words := by
    simp [termClearScreen, TermCtx.store, Function.comp_def]
  rw [hwritten, List.mem_append, List.mem_range]
  exact or_iff_right List.not_mem_nil

/-- **The shell stores the words of a screen of 1280 by 800, and no others**, whatever it prints. -/
theorem terminal_inside (font8x8 : ℕ → ℕ → ℕ) (framebuffer : ℕ → ℕ) (ops : List TermOp) :
    ∀ i ∈ (terminal font8x8 framebuffer ops).written, i < 1280 * 800 := by
  have hstart : (shellCtx framebuffer).Inside :=
    ⟨Nat.le_of_ble_eq_true rfl, Nat.le_of_ble_eq_true rfl, nofun⟩
  have hstep (ctx : TermCtx) (op : TermOp) (h : ctx.Inside ∧ ctx.words = 1280 * 800) :
      (termStep font8x8 ctx op).Inside ∧ (termStep font8x8 ctx op).words = 1280 * 800 := by
    refine ⟨?_, (termStep_words op).trans h.2⟩
    cases op with
    | clear => exact h.1.clear
    | putc c => exact h.1.putc c
  obtain ⟨hin, hwords⟩ : (terminal font8x8 framebuffer ops).Inside ∧
      (terminal font8x8 framebuffer ops).words = 1280 * 800 :=
    run_keeps hstep ⟨hstart.clear, rfl⟩ ops
  rw [← hwords]
  exact hin.written

end Shell
end AiOsExchange
