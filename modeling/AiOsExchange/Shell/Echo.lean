/-
# What is shown and what will be executed

`shell_main` keeps the line in `cmd_buffer` and shows it with `term_putc`.  On a backspace each of
the two has a guard of its own.

| | changes if | |
| --- | --- | --- |
| `cmd_buffer` | `cmd_idx > 0` | loses its last character |
| the screen | `cursor_x >= 16` | loses the cell before the cursor |

They agree up to the end of a row.  There the cursor is in the first column of the next one, and a
backspace takes the character from the line and leaves it on the screen, for good: the line and the
screen agree after every key if and only if no backspace is typed there (`shown_iff`).
-/

import AiOsExchange.Shell.Cells
import AiOsExchange.Shell.Editing

namespace AiOsExchange
namespace Shell

open CMemory Runs

/-- `msg_prompt`. -/
def msgPrompt : List UInt8 := ascii "ai-os / % "

/-- The terminal after these calls and the prompt. -/
def prompted (font8x8 : ℕ → ℕ → ℕ) (framebuffer : ℕ → ℕ) (ops : List TermOp) : TermCtx :=
  terminal font8x8 framebuffer (ops ++ msgPrompt.map TermOp.putc)

/-- A printable character or a backspace. -/
structure Key where
  code : UInt8
  typed : code = 8 ∨ (32 ≤ code ∧ code ≤ 126)

/-- The screen and the line, with the rows scrolled since the prompt. -/
structure Typing where
  ctx : TermCtx
  cmdBuffer : List UInt8
  scrolls : ℕ

/-- `term_putc`. -/
def Typing.putc (font8x8 : ℕ → ℕ → ℕ) (t : Typing) (c : UInt8) : Typing :=
  { t with
    ctx := termPutc font8x8 t.ctx c
    scrolls := t.scrolls + (termChar font8x8 t.ctx c).rowsBelow }

/-- The branches of `shell_main` for a backspace and for any other character. -/
def typeKey (font8x8 : ℕ → ℕ → ℕ) (t : Typing) (k : Key) : Typing :=
  if k.code = 8 then
    if t.cmdBuffer = [] then t
    else { t.putc font8x8 k.code with cmdBuffer := t.cmdBuffer.dropLast }
  else if t.cmdBuffer.length < cmdMaxLen - 1 then
    { t.putc font8x8 k.code with cmdBuffer := t.cmdBuffer ++ [k.code] }
  else t

/-- The line editor alone, on keys. -/
def editKey (line : List UInt8) (k : Key) : List UInt8 := (editStep ([], line) k.code).2

/-- A cell shows a character: its glyph on the background. -/
def TermCtx.ShowsChar (font8x8 : ℕ → ℕ → ℕ) (ctx : TermCtx) (n : ℕ) (c : UInt8) : Prop :=
  ∀ dx < 16, ∀ dy < 16, ctx.look n dx dy = if glyphBit font8x8 c dx dy then colorFg else colorBg

/-- The screen shows the line: the cursor is as many cells behind the prompt as the line has
characters, the cells between show them, and the cells from the cursor on are blank.  `start` is
the cell behind the prompt, before the screen scrolled. -/
structure Typing.Shown (font8x8 : ℕ → ℕ → ℕ) (start : ℕ) (t : Typing) : Prop where
  cursor : t.ctx.cell + 80 * t.scrolls = start + t.cmdBuffer.length
  chars : ∀ j c, t.cmdBuffer[j]? = some c →
    ∃ n, n + 80 * t.scrolls = start + j ∧ t.ctx.ShowsChar font8x8 n c
  blank : t.ctx.BlankBehind

/-- A backspace with the cursor in the first column and a line to take a character from. -/
def StaysShown (start : ℕ) (line : List UInt8) (k : Key) : Prop :=
  k.code = 8 ∧ line ≠ [] ∧ (start + line.length) % 80 = 0

instance (start : ℕ) (line : List UInt8) (k : Key) : Decidable (StaysShown start line k) :=
  inferInstanceAs (Decidable (_ ∧ _ ∧ _))

/-- What every key keeps. -/
structure Typing.Echoed (font8x8 : ℕ → ℕ → ℕ) (start : ℕ) (t : Typing) : Prop
    extends t.Shown font8x8 start where
  page : t.ctx.Page
  short : t.cmdBuffer.length ≤ 255
  low : t.scrolls = 0 ∨ 3920 + 80 * t.scrolls ≤ start + 255

section
variable {font8x8 : ℕ → ℕ → ℕ} {start : ℕ} {t : Typing} {k : Key}

/-- A key does not end the line. -/
theorem Key.not_feed (k : Key) : ¬ (k.code = 10 ∨ k.code = 13) := by
  rintro (h | h) <;> exact absurd k.typed (by rw [h]; decide)

/-- A key is one character of the line editor. -/
theorem typeKey_cmdBuffer (font8x8 : ℕ → ℕ → ℕ) (t : Typing) (k : Key) :
    (typeKey font8x8 t k).cmdBuffer = editKey t.cmdBuffer k := by
  rw [typeKey, editKey, editStep, if_neg k.not_feed]
  split_ifs with h8 hnil
  · rw [hnil]
    rfl
  · rfl
  · rfl
  · rfl

/-- The shell keeps the same line. -/
theorem typeChar_cmdBuffer (pay : Buf) (k : Key) (s : ShellState) :
    (typeChar pay k.code s).cmdBuffer = editKey s.cmdBuffer k := by
  simp only [typeChar, editKey, editStep, if_neg k.not_feed]
  split_ifs <;> rfl

/-- The cursor is in the first column if the line ends with a row. -/
theorem Typing.Echoed.column (h : t.Echoed font8x8 start) :
    t.ctx.cursorX = 16 * ((start + t.cmdBuffer.length) % 80) := by
  obtain ⟨-, hcol⟩ := h.page.corner h.page.x_le
  have hcursor := h.cursor
  omega

theorem termChar_printable {ctx : TermCtx} {c : UInt8} (hc : 32 ≤ c ∧ c ≤ 126) :
    termChar font8x8 ctx c = advance font8x8 ctx c := by
  have h10 : c ≠ 10 := by
    rintro rfl
    exact absurd hc (by decide)
  have h8 : c ≠ 8 := by
    rintro rfl
    exact absurd hc (by decide)
  rw [termChar, if_neg h10, if_neg h8]

/-- A cell after a printable character and the scroll, by where it was before. -/
theorem look_printed {ctx : TermCtx} (h : ctx.Page) {c : UInt8} (hc : 32 ≤ c ∧ c ≤ 126)
    {n dx dy : ℕ} (hn : n < 4000) (hrows : 80 * (termChar font8x8 ctx c).rowsBelow ≤ n)
    (hdx : dx < 16) (hdy : dy < 16) :
    (termPutc font8x8 ctx c).look (n - 80 * (termChar font8x8 ctx c).rowsBelow) dx dy =
      if n = ctx.cell ∧ glyphBit font8x8 c dx dy then colorFg else ctx.look n dx dy := by
  have hon := @TermCtx.Page.char ctx font8x8 h c
  refine (hon.look_fit (by omega) hdx hdy).trans ?_
  rw [Nat.sub_add_cancel hrows, if_pos hn, termChar_printable hc, look_advance,
    look_termDrawChar h.toAtCell h.x_le h.fits hc hdx hdy]

/-- A printable character appears behind the line, in its cell, and the screen scrolls if that was
the last. -/
theorem Typing.Echoed.printed (h : t.Echoed font8x8 start) {c : UInt8} (hc : 32 ≤ c ∧ c ≤ 126)
    (hroom : t.cmdBuffer.length < 255) :
    Typing.Echoed font8x8 start { t.putc font8x8 c with cmdBuffer := t.cmdBuffer ++ [c] } := by
  have hcursor := h.cursor
  have hlow := h.low
  have hlt := h.page.cell_lt h.page.fits
  have hon := @TermCtx.Page.char t.ctx font8x8 h.page c
  have hrows := hon.rows
  have hfit : (termPutc font8x8 t.ctx c).cell + 80 * (termChar font8x8 t.ctx c).rowsBelow =
      t.ctx.cell + 1 := by
    refine hon.cell_fit.trans ?_
    rw [termChar_printable hc, cell_advance h.page.toAtCell h.page.x_le]
  have hlast : (termChar font8x8 t.ctx c).cell = t.ctx.cell + 1 := by
    rw [termChar_printable hc, cell_advance h.page.toAtCell h.page.x_le]
  rw [hlast] at hrows
  have hlen : (t.cmdBuffer ++ [c]).length = t.cmdBuffer.length + 1 := by simp
  refine ⟨⟨?_, fun j c' hj => ?_, hon.fit.blank⟩, hon.fit, ?_, ?_⟩
  · simp only [Typing.putc, hlen]
    omega
  · simp only [Typing.putc]
    rcases Nat.lt_or_ge j t.cmdBuffer.length with hjl | hjl
    · rw [List.getElem?_append_left hjl] at hj
      obtain ⟨n, hn, hshow⟩ := h.chars j c' hj
      refine ⟨n - 80 * (termChar font8x8 t.ctx c).rowsBelow, by omega, fun dx hdx dy hdy => ?_⟩
      rw [look_printed h.page hc (by omega) (by omega) hdx hdy, if_neg (by omega)]
      exact hshow dx hdx dy hdy
    · rw [List.getElem?_append_right hjl, List.getElem?_singleton] at hj
      split_ifs at hj with hj0
      obtain rfl := Option.some.inj hj
      refine ⟨t.ctx.cell - 80 * (termChar font8x8 t.ctx c).rowsBelow, by omega,
        fun dx hdx dy hdy => ?_⟩
      rw [look_printed h.page hc hlt (by omega) hdx hdy,
        h.blank t.ctx.cell (Nat.le_refl _) hlt dx hdx dy hdy]
      simp only [true_and]
  · simp only [hlen]
    omega
  · simp only [Typing.putc]
    omega

/-- A backspace leaves the row, so the screen does not scroll. -/
theorem termPutc_backspace {ctx : TermCtx} (h : ctx.Page) :
    termPutc font8x8 ctx 8 = backspace ctx ∧ (termChar font8x8 ctx 8).rowsBelow = 0 := by
  have hchar : termChar font8x8 ctx 8 = backspace ctx := rfl
  have hrow : ¬ (backspace ctx).screenHeight < (backspace ctx).cursorY + 16 := by
    have hfits := h.fits
    have hheight := h.height_eq
    unfold backspace
    split_ifs
    · simp only [TermCtx.store]
      omega
    · omega
  exact ⟨if_neg hrow, by rw [hchar, TermCtx.rowsBelow, if_neg hrow]⟩

/-- A backspace behind the first column takes the last character from the screen. -/
theorem Typing.Echoed.erased (h : t.Echoed font8x8 start) (hne : t.cmdBuffer ≠ [])
    (h16 : 16 ≤ t.ctx.cursorX) :
    Typing.Echoed font8x8 start { t.putc font8x8 8 with cmdBuffer := t.cmdBuffer.dropLast } := by
  have hcursor := h.cursor
  have hlow := h.low
  have hshort := h.short
  have hlen := List.length_pos_of_ne_nil hne
  obtain ⟨hputc, hrows⟩ := @termPutc_backspace font8x8 t.ctx h.page
  have hcell := cell_backspace h16
  have hpage : (termPutc font8x8 t.ctx 8).Page := (@TermCtx.Page.char t.ctx font8x8 h.page 8).fit
  rw [hputc] at hpage
  simp only [Typing.putc, hputc, hrows, Nat.add_zero]
  refine ⟨⟨?_, fun j c hj => ?_, hpage.blank⟩, hpage, ?_, hlow⟩
  · simp only [List.length_dropLast]
    omega
  · simp only [List.getElem?_dropLast] at hj
    split_ifs at hj with hjl
    obtain ⟨n, hn, hshow⟩ := h.chars j c hj
    refine ⟨n, hn, fun dx hdx dy hdy => ?_⟩
    simp only [look_backspace h.page.toAtCell h.page.x_le h16 hdx hdy]
    rw [if_neg (by omega)]
    exact hshow dx hdx dy hdy
  · simp only [List.length_dropLast]
    omega

/-- In the first column it takes nothing from the screen. -/
theorem Typing.Echoed.not_shown (h : t.Echoed font8x8 start) (hk : StaysShown start t.cmdBuffer k) :
    ¬ (typeKey font8x8 t k).Shown font8x8 start := by
  obtain ⟨h8, hne, hrow⟩ := hk
  have hlen := List.length_pos_of_ne_nil hne
  have hcol := h.column
  obtain ⟨hputc, hrows⟩ := @termPutc_backspace font8x8 t.ctx h.page
  have hstays : backspace t.ctx = t.ctx := if_neg (by omega)
  rw [typeKey, if_pos h8, if_neg hne, h8]
  intro hshown
  have hcursor := h.cursor
  have hcursor' := hshown.cursor
  simp only [Typing.putc, hputc, hrows, hstays, List.length_dropLast] at hcursor'
  omega

/-- **A key keeps the line on the screen** unless it is a backspace in the first column. -/
theorem Typing.Echoed.step (h : t.Echoed font8x8 start) (hk : ¬ StaysShown start t.cmdBuffer k) :
    (typeKey font8x8 t k).Echoed font8x8 start := by
  rw [typeKey]
  split_ifs with h8 hnil hroom
  · exact h
  · have hrow : (start + t.cmdBuffer.length) % 80 ≠ 0 := fun hrow => hk ⟨h8, hnil, hrow⟩
    have hcol := h.column
    rw [h8]
    exact h.erased hnil (by omega)
  · exact h.printed (k.typed.resolve_left h8) hroom
  · exact h

end

/-! ### Every sequence of keys -/

/-- The screen and the line behind the prompt. -/
def typingStart (ctx : TermCtx) : Typing := ⟨ctx, [], 0⟩

theorem echoed_start (font8x8 : ℕ → ℕ → ℕ) {ctx : TermCtx} (h : ctx.Page) :
    (typingStart ctx).Echoed font8x8 ctx.cell :=
  ⟨⟨rfl, by simp [typingStart], h.blank⟩, h, Nat.zero_le _, .inl rfl⟩

/-- The line of a run is that of the editor. -/
theorem run_typeKey_cmdBuffer (font8x8 : ℕ → ℕ → ℕ) (keys : List Key) (t : Typing) :
    (run (typeKey font8x8) t keys).cmdBuffer = run editKey t.cmdBuffer keys := by
  induction keys generalizing t with
  | nil => rfl
  | cons k keys ih => rw [run_cons, run_cons, ih, typeKey_cmdBuffer]

theorem stepsMeet_editKey (font8x8 : ℕ → ℕ → ℕ) (ok : List UInt8 → Key → Prop) (keys : List Key)
    (t : Typing) : StepsMeet (typeKey font8x8) (fun t k => ok t.cmdBuffer k) t keys ↔
      StepsMeet editKey ok t.cmdBuffer keys := by
  induction keys generalizing t with
  | nil => exact Iff.rfl
  | cons k keys ih => rw [stepsMeet_cons, stepsMeet_cons, ih, typeKey_cmdBuffer]

/-- **What is shown is what will be executed**, after every key, if and only if no backspace is
typed while the line ends with a row: the cell behind the prompt and the length of the line add up
to a multiple of 80, and the line is not empty. -/
theorem shown_iff (font8x8 : ℕ → ℕ → ℕ) (framebuffer : ℕ → ℕ) (ops : List TermOp)
    (keys : List Key) :
    (∀ pre, pre <+: keys → (run (typeKey font8x8)
        (typingStart (prompted font8x8 framebuffer ops)) pre).Shown font8x8
          (prompted font8x8 framebuffer ops).cell) ↔
      StepsMeet editKey
        (fun line k => ¬ StaysShown (prompted font8x8 framebuffer ops).cell line k) [] keys := by
  have hpage : (prompted font8x8 framebuffer ops).Page := page_terminal font8x8 framebuffer _
  rw [forall_prefix_iff_stepsMeet
    (fun t k (h : t.Echoed font8x8 (prompted font8x8 framebuffer ops).cell) hk => h.step hk)
    (fun t h => h.toShown) (fun t k h hk => h.not_shown (not_not.1 hk))
    (echoed_start font8x8 hpage) keys]
  exact stepsMeet_editKey font8x8
    (fun line k => ¬ StaysShown (prompted font8x8 framebuffer ops).cell line k) keys (typingStart _)

def keyA : Key := ⟨97, by decide⟩

def keyBackspace : Key := ⟨8, by decide⟩

/-- Seventy characters behind the prompt fill its row; the backspace after them takes the last from
the line and leaves it on the screen. -/
theorem erased_stays_shown : ¬ ∀ (font8x8 : ℕ → ℕ → ℕ) (framebuffer : ℕ → ℕ) (ops : List TermOp)
    (keys : List Key) (pre : List Key), pre <+: keys → (run (typeKey font8x8)
      (typingStart (prompted font8x8 framebuffer ops)) pre).Shown font8x8
        (prompted font8x8 framebuffer ops).cell := by
  intro h
  have hstart : (prompted (fun _ _ => 0) (fun _ => 0) []).cell = 10 := by decide +kernel
  have hpage : (prompted (fun _ _ => 0) (fun _ => 0) []).Page := page_terminal _ _ _
  have hline : (run editKey [] (List.replicate 70 keyA)).length = 70 := by decide +kernel
  have hechoed := run_invariant
    (fun t k (h : t.Echoed (fun _ _ => 0) 10) hk => h.step hk)
    (hstart ▸ echoed_start (fun _ _ => 0) hpage)
    ((stepsMeet_editKey (fun _ _ => 0) (fun line k => ¬ StaysShown 10 line k)
      (List.replicate 70 keyA) _).2 (by decide +kernel))
  have hshown := h (fun _ _ => 0) (fun _ => 0) [] (List.replicate 70 keyA ++ [keyBackspace]) _
    List.prefix_rfl
  rw [run_append, run_cons, run_nil, hstart] at hshown
  refine hechoed.not_shown ⟨rfl, ?_, ?_⟩ hshown
  · rw [run_typeKey_cmdBuffer]
    exact List.ne_nil_of_length_pos (by rw [typingStart, hline]; decide)
  · rw [run_typeKey_cmdBuffer, typingStart, hline]

end Shell
end AiOsExchange
