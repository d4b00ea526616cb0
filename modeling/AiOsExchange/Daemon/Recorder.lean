/-
# The recorder of dumps

`watcher_dump_history` prints the events between a line with a title and a line of equality signs.
`reader_thread` of `phase9_daemon.py` goes over the lines of the output, records those behind a title,
and gives them to `on_dump` at a line with the signs.

| source | here |
| --- | --- |
| `watcher_dump_history` | `dumpText`, `eventLine` |
| `Popen(.., text=True)` | `fromUtf8`, `textLines` |
| the body of the loop over `proc.stdout`, and the loop | `readLine`, `readerThread` |

The kernel prints bytes.  The pipe is opened as text: its bytes must be UTF-8, or the thread ends with
an exception, and `\r` ends a line as `\n` does.  A remembered context is at most 63 bytes long, so the
end of one may be half a character.

Without an event no line of signs is printed, and the recorder goes on until the next title.  So what
is printed between the dumps must have neither mark, nor may a context.  Then `on_dump` is called once
for each dump of a watcher that has logged anything, with the last 64 of its events (`dumps_recorded`).
-/

import Mathlib.Data.List.Infix
import AiOsExchange.Autarky.Utf8
import AiOsExchange.Kernel.Panic
import AiOsExchange.Lib.Refine
import AiOsExchange.Watcher.History

namespace AiOsExchange
namespace Daemon

open Autarky CMemory Kernel Runs Watcher

/-! ### What is printed -/

/-- The number of a type. -/
def eventTypeCode : WatcherEventType → UInt64
  | .none => 0
  | .keystroke => 1
  | .fsRead => 2
  | .fsWrite => 3
  | .procSpawn => 4
  | .ledgerCommit => 5

/-- What stands before the context of an event. -/
def eventLabel (i : ℕ) (type : WatcherEventType) : List UInt8 :=
  ascii "Event [" ++ uartPrintHex (.ofNat i) ++ ascii "] Type: " ++ uartPrintHex (eventTypeCode type) ++
    ascii " | Ctx: "

/-- The line of an event, up to its end. -/
def eventLine (i : ℕ) (e : Entry) : List UInt8 := eventLabel i e.type ++ e.context

/-- The loop over the events, from the number `i` on. -/
def eventLines : ℕ → List Entry → List UInt8
  | _, [] => []
  | i, e :: entries => eventLine i e ++ 10 :: eventLines (i + 1) entries

/-- The title. -/
def startMark : List UInt8 := ascii "=== WATCHER MEMORY DUMP ==="

/-- The line of signs. -/
def endMark : List UInt8 := ascii "==========================="

/-- The line that stands for no events. -/
def noEvents : List UInt8 := ascii "No events logged."

/-- What `watcher_dump_history` prints. -/
def dumpText (w : WatcherState) : List UInt8 :=
  10 :: (startMark ++ [10]) ++
    if w.count = 0 then noEvents ++ [10]
    else eventLines 0 ((watcherDumpHistory w).map WatcherEvent.entry) ++ (endMark ++ [10])

/-! ### What is recorded -/

/-- The lines of a text, each with `\n` for its end: `\r`, `\n` and `\r\n` are one end each.  A `\n`
that follows a `\r` has been counted with it. -/
def textLines (afterCr : Bool) : Word → List Word
  | [] => []
  | c :: cs =>
      if c = '\n' then if afterCr then textLines false cs else ['\n'] :: textLines false cs
      else if c = '\r' then ['\n'] :: textLines true cs
      else
        match textLines false cs with
        | [] => [[c]]
        | line :: lines => (c :: line) :: lines

/-- `log_buffer` and `is_recording`. -/
structure Recorder where
  logBuffer : Word
  isRecording : Bool

/-- The recorder that has seen nothing. -/
def Recorder.start : Recorder := ⟨[], false⟩

/-- The text that begins a recording. -/
def dumpTitle : Word := "=== WATCHER MEMORY DUMP ===".toList

/-- The text that ends one. -/
def dumpEnd : Word := "===========================".toList

/-- The body of the loop of `reader_thread`, with what it gives to `on_dump`. -/
def readLine (s : Recorder) (line : Word) : List Word × Recorder :=
  if dumpTitle <:+: line then ([], ⟨[], true⟩)
  else if s.isRecording then
    if dumpEnd <:+: line then ([s.logBuffer], ⟨[], false⟩)
    else ([], { s with logBuffer := s.logBuffer ++ line })
  else ([], s)

/-- The calls of `on_dump` over a text. -/
def onDumps (s : Recorder) (text : Word) : List Word :=
  (answers readLine s (textLines false text)).flatten

/-- The calls of `on_dump`; nothing if the output cannot be decoded, where the place at which the thread
ends depends on how the pipe is read. -/
def readerThread (output : List UInt8) : Option (List Word) := (fromUtf8 output).map (onDumps .start)

/-- Half a character ends the thread. -/
example : readerThread (ascii "Ctx: " ++ [0xC3, 10]) = none := by decide +kernel

/-! ### Lines -/

section
variable {l rest : Word}

theorem textLines_cons {c : Char} (hn : c ≠ '\n') (hr : c ≠ '\r') (afterCr : Bool) (cs : Word) :
    textLines afterCr (c :: cs) =
      match textLines false cs with
      | [] => [[c]]
      | line :: lines => (c :: line) :: lines := by
  rw [textLines, if_neg hn, if_neg hr]

theorem textLines_ne_nil (h : l ≠ []) : textLines false l ≠ [] := by
  cases l with
  | nil => exact absurd rfl h
  | cons c cs =>
      by_cases hn : c = '\n'
      · subst hn
        exact List.cons_ne_nil ['\n'] _
      · by_cases hr : c = '\r'
        · subst hr
          exact List.cons_ne_nil ['\n'] _
        · rw [textLines_cons hn hr]
          split <;> exact List.cons_ne_nil _ _

/-- Behind a line end the lines begin anew. -/
theorem textLines_append_end (afterCr : Bool) (l rest : Word) :
    textLines afterCr (l ++ '\n' :: rest) = textLines afterCr (l ++ ['\n']) ++ textLines false rest := by
  induction l generalizing afterCr with
  | nil => cases afterCr <;> rfl
  | cons c l ih =>
      rw [List.cons_append, List.cons_append]
      by_cases hn : c = '\n'
      · subst hn
        cases afterCr
        · exact congrArg (['\n'] :: ·) (ih false)
        · exact ih false
      · by_cases hr : c = '\r'
        · subst hr
          exact congrArg (['\n'] :: ·) (ih true)
        · have hne := textLines_ne_nil (List.append_ne_nil_of_right_ne_nil l (List.cons_ne_nil '\n' []))
          rw [textLines_cons hn hr, textLines_cons hn hr, ih]
          cases h : textLines false (l ++ ['\n']) with
          | nil => exact absurd h hne
          | cons line lines => rfl

/-- A line is one. -/
theorem textLines_line (hn : '\n' ∉ l) (hr : '\r' ∉ l) :
    textLines false (l ++ '\n' :: rest) = (l ++ ['\n']) :: textLines false rest := by
  induction l with
  | nil => rfl
  | cons c l ih =>
      rw [List.mem_cons, not_or] at hn hr
      rw [List.cons_append, textLines_cons (Ne.symm hn.1) (Ne.symm hr.1), ih hn.2 hr.2]
      rfl

/-- What begins with a character that is not before it is behind. -/
theorem infix_of_infix_append {a : Char} {m : Word} (ha : a ∉ l) (h : a :: m <:+: l ++ rest) :
    a :: m <:+: rest := by
  obtain ⟨p, q, hpq⟩ := h
  rw [List.append_assoc] at hpq
  obtain ⟨t, hl, ht⟩ | ⟨t, -, ht⟩ := List.append_eq_append_iff.1 hpq
  · cases t with
    | nil => exact ⟨[], q, by rw [List.nil_append]; exact ht⟩
    | cons b t =>
        obtain ⟨rfl, -⟩ := List.cons.inj ht
        exact absurd (hl ▸ List.mem_append_right p List.mem_cons_self) ha
  · exact ⟨t, q, by rw [List.append_assoc]; exact ht.symm⟩

/-- What does not end with the last character is before it. -/
theorem infix_of_infix_concat {a b : Char} {m : Word} (hab : a ≠ b) (h : m ++ [a] <:+: l ++ [b]) :
    m ++ [a] <:+: l := by
  rw [← List.reverse_infix, List.reverse_append, List.reverse_append] at h
  rw [← List.reverse_infix, List.reverse_append]
  exact infix_of_infix_append (fun hmem => hab (List.mem_singleton.1 hmem)) h

end

/-- The line has neither mark. -/
def Unmarked (line : Word) : Prop := ¬ dumpTitle <:+: line ∧ ¬ dumpEnd <:+: line

instance (line : Word) : Decidable (Unmarked line) := inferInstanceAs (Decidable (_ ∧ _))

/-- A text without line ends and marks. -/
structure OneLine (text : Word) : Prop where
  lf : '\n' ∉ text
  cr : '\r' ∉ text
  unmarked : Unmarked text

/-- No line of the text has a mark, whether its end follows or not. -/
def Quiet (text : Word) : Prop := ∀ line ∈ textLines false (text ++ ['\n']), Unmarked line

/-- A context in whole characters, on one line and without a mark. -/
def Tidy (e : Entry) : Prop := ∃ text, utf8Bytes text = e.context ∧ OneLine text

/-! ### The lines of the events -/

/-- A character of one byte that neither ends a line nor is a sign of a mark. -/
structure Inline (b : UInt8) : Prop where
  ascii : b.toNat < 128
  lf : b ≠ 10
  cr : b ≠ 13
  sign : b ≠ 61

instance (b : UInt8) : Decidable (Inline b) :=
  decidable_of_iff (b.toNat < 128 ∧ b ≠ 10 ∧ b ≠ 13 ∧ b ≠ 61)
    ⟨fun h => ⟨h.1, h.2.1, h.2.2.1, h.2.2.2⟩, fun h => ⟨h.ascii, h.lf, h.cr, h.sign⟩⟩

section
variable {e : Entry} {b : UInt8} {text : Word}

theorem inline_uartPrintHex {val : UInt64} (h : b ∈ uartPrintHex val) : Inline b := by
  rw [uartPrintHex_eq, List.mem_append] at h
  rcases h with h | h
  · have hzero : ∀ b ∈ ascii "0x", Inline b := forall_mem_of_all (by decide)
    exact hzero b h
  · rw [u64ToHexStr, List.mem_map] at h
    obtain ⟨i, -, rfl⟩ := h
    have hdigits : ∀ k < 16, Inline (hexChars.getD k 0) := by decide
    exact hdigits _ (Nat.mod_lt _ (by decide))

theorem inline_eventLabel {i : ℕ} {type : WatcherEventType} (h : b ∈ eventLabel i type) : Inline b := by
  have hevent : ∀ b ∈ ascii "Event [", Inline b := forall_mem_of_all (by decide)
  have htype : ∀ b ∈ ascii "] Type: ", Inline b := forall_mem_of_all (by decide)
  have hctx : ∀ b ∈ ascii " | Ctx: ", Inline b := forall_mem_of_all (by decide)
  simp only [eventLabel, List.mem_append] at h
  rcases h with (((h | h) | h) | h) | h
  · exact hevent b h
  · exact inline_uartPrintHex h
  · exact htype b h
  · exact inline_uartPrintHex h
  · exact hctx b h

theorem Inline.exists_char (h : Inline b) :
    ∃ c, String.utf8EncodeChar c = [b] ∧ c ≠ '\n' ∧ c ≠ '\r' ∧ c ≠ '=' := by
  have hall : ∀ n < 128, String.utf8EncodeChar (Char.ofNat n) = [UInt8.ofNat n] ∧
      (Char.ofNat n).toNat = n := by decide
  obtain ⟨hencode, hnat⟩ := hall b.toNat h.ascii
  have hne {c : Char} {b' : UInt8} (hc : c.toNat = b'.toNat) (hb : b ≠ b') : Char.ofNat b.toNat ≠ c := by
    rintro rfl
    exact hb (UInt8.toNat_inj.1 (hnat.symm.trans hc))
  exact ⟨_, hencode.trans (by rw [UInt8.ofNat_toNat]), hne rfl h.lf, hne rfl h.cr, hne rfl h.sign⟩

/-- Such bytes are characters of a line. -/
theorem exists_inline {bytes : List UInt8} (h : ∀ b ∈ bytes, Inline b) :
    ∃ l, utf8Bytes l = bytes ∧ '\n' ∉ l ∧ '\r' ∉ l ∧ '=' ∉ l := by
  induction bytes with
  | nil => exact ⟨[], rfl, List.not_mem_nil, List.not_mem_nil, List.not_mem_nil⟩
  | cons b bytes ih =>
      obtain ⟨c, hc, hlf, hcr, hsign⟩ := (h b List.mem_cons_self).exists_char
      obtain ⟨l, hl, hlfs, hcrs, hsigns⟩ := ih fun b' hb' => h b' (List.mem_cons_of_mem b hb')
      refine ⟨c :: l, ?_, ?_, ?_, ?_⟩
      · rw [← hl, ← List.singleton_append (x := b), ← hc]
        rfl
      · exact List.not_mem_cons_of_ne_of_not_mem (Ne.symm hlf) hlfs
      · exact List.not_mem_cons_of_ne_of_not_mem (Ne.symm hcr) hcrs
      · exact List.not_mem_cons_of_ne_of_not_mem (Ne.symm hsign) hsigns

/-- A mark begins and ends with a sign. -/
theorem marks_signed : (∃ m, dumpTitle = '=' :: m ++ ['=']) ∧ ∃ m, dumpEnd = '=' :: m ++ ['='] :=
  ⟨⟨(dumpTitle.drop 1).dropLast, by decide⟩, ⟨(dumpEnd.drop 1).dropLast, by decide⟩⟩

/-- A text without signs in front of it does not make a mark. -/
theorem Unmarked.append_left (h : Unmarked text) {l : Word} (hl : '=' ∉ l) : Unmarked (l ++ text) := by
  obtain ⟨⟨m, hm⟩, m', hm'⟩ := marks_signed
  rw [Unmarked, hm, hm'] at h ⊢
  exact ⟨fun hmark => h.1 (infix_of_infix_append hl hmark),
    fun hmark => h.2 (infix_of_infix_append hl hmark)⟩

/-- Nor does the end of its line. -/
theorem Unmarked.append_end (h : Unmarked text) : Unmarked (text ++ ['\n']) := by
  obtain ⟨⟨m, hm⟩, m', hm'⟩ := marks_signed
  rw [Unmarked, hm, hm'] at h ⊢
  have hne : '=' ≠ '\n' := by decide
  exact ⟨fun hmark => h.1 (infix_of_infix_concat hne hmark),
    fun hmark => h.2 (infix_of_infix_concat hne hmark)⟩

theorem oneLine_eventLine (h : Tidy e) (i : ℕ) :
    ∃ text, utf8Bytes text = eventLine i e ∧ OneLine text := by
  obtain ⟨context, hcontext, hline⟩ := h
  obtain ⟨l, hl, hlf, hcr, hsign⟩ := exists_inline fun b => @inline_eventLabel b i e.type
  refine ⟨l ++ context, ?_, ?_, ?_, hline.unmarked.append_left hsign⟩
  · rw [utf8Bytes_append, hl, hcontext, eventLine]
  · exact List.not_mem_append hlf hline.lf
  · exact List.not_mem_append hcr hline.cr

end

/-! ### Recording -/

/-- Over this text the recorder goes from one state to the other and gives these dumps, whatever
follows. -/
def Reads (s : Recorder) (text : Word) (dumps : List Word) (s' : Recorder) : Prop :=
  ∀ rest, onDumps s (text ++ rest) = dumps ++ onDumps s' rest

section
variable {s s₁ s' : Recorder} {lines dumps dumps' : List Word} {l line text text' before : Word}
  {entries : List Entry} {w : WatcherState}

theorem Reads.append (h : Reads s text dumps s₁) (h' : Reads s₁ text' dumps' s') :
    Reads s (text ++ text') (dumps ++ dumps') s' := by
  intro rest
  rw [List.append_assoc, List.append_assoc, h, h']

/-- One line. -/
theorem reads_line (hn : '\n' ∉ l) (hr : '\r' ∉ l) (hline : readLine s (l ++ ['\n']) = (dumps, s')) :
    Reads s (l ++ ['\n']) dumps s' := by
  intro rest
  rw [onDumps, List.append_assoc, List.singleton_append, textLines_line hn hr, answers_cons,
    List.flatten_cons, next, hline, onDumps]

/-- A line without a mark is added if there is a recording. -/
theorem readLine_recording (h : Unmarked line) (buffer : Word) :
    readLine ⟨buffer, true⟩ line = ([], ⟨buffer ++ line, true⟩) := by
  rw [readLine, if_neg h.1, if_pos rfl, if_neg h.2]

theorem OneLine.reads (h : OneLine l) (buffer : Word) :
    Reads ⟨buffer, true⟩ (l ++ ['\n']) [] ⟨buffer ++ (l ++ ['\n']), true⟩ :=
  reads_line h.lf h.cr (readLine_recording h.unmarked.append_end buffer)

theorem readLine_idle (h : Unmarked line) (buffer : Word) :
    readLine ⟨buffer, false⟩ line = ([], ⟨buffer, false⟩) := by
  rw [readLine, if_neg h.1, if_neg Bool.false_ne_true]

/-- Lines without marks give no dump. -/
theorem answers_unmarked (h : ∀ line ∈ lines, Unmarked line) (s : Recorder) :
    (answers readLine s lines).flatten = [] := by
  induction lines generalizing s with
  | nil => rfl
  | cons line lines ih =>
      have hline := h line List.mem_cons_self
      have hfirst : (readLine s line).1 = [] := by
        obtain ⟨buffer, recording⟩ := s
        cases recording
        · rw [readLine_idle hline]
        · rw [readLine_recording hline]
      rw [answers_cons, List.flatten_cons, hfirst, List.nil_append]
      exact ih (fun l hl => h l (List.mem_cons_of_mem line hl)) _

theorem reads_quiet (h : Quiet text) (s : Recorder) : ∃ s', Reads s (text ++ ['\n']) [] s' := by
  refine ⟨run (next readLine) s (textLines false (text ++ ['\n'])), fun rest => ?_⟩
  rw [onDumps, List.append_assoc, List.singleton_append, textLines_append_end, answers_append,
    List.flatten_append, answers_unmarked h, onDumps]

/-- A title begins a recording. -/
theorem reads_title (h : Quiet before) (s : Recorder) :
    Reads s (before ++ ['\n'] ++ (dumpTitle ++ ['\n'])) [] ⟨[], true⟩ := by
  obtain ⟨s₁, hbefore⟩ := reads_quiet h s
  have htitle : readLine s₁ (dumpTitle ++ ['\n']) = ([], ⟨[], true⟩) := if_pos ⟨[], ['\n'], rfl⟩
  exact hbefore.append (reads_line (by decide) (by decide) htitle)

/-- Events are recorded. -/
theorem reads_eventLines (h : ∀ e ∈ entries, Tidy e) (i : ℕ) :
    ∃ text, utf8Bytes text = eventLines i entries ∧ ∀ buffer, Reads ⟨buffer, true⟩ text [] ⟨buffer ++ text, true⟩ := by
  induction entries generalizing i with
  | nil => exact ⟨[], rfl, fun buffer rest => by rw [List.append_nil]; rfl⟩
  | cons e entries ih =>
      obtain ⟨line, hline, hone⟩ := oneLine_eventLine (h e List.mem_cons_self) i
      obtain ⟨text, htext, hreads⟩ := ih (fun e' he' => h e' (List.mem_cons_of_mem e he')) (i + 1)
      refine ⟨line ++ ['\n'] ++ text, ?_, fun buffer => ?_⟩
      · rw [utf8Bytes_append, utf8Bytes_append, hline, htext, List.append_assoc]
        rfl
      · have hfirst := hone.reads buffer
        rw [← List.append_assoc]
        exact hfirst.append (hreads _)

theorem dumpText_of_none (h : w.count = 0) :
    dumpText w = 10 :: (startMark ++ [10]) ++ (noEvents ++ [10]) := by
  rw [dumpText, if_pos h]

theorem dumpText_of_some (h : w.count ≠ 0) : dumpText w = 10 :: (startMark ++ [10]) ++
    (eventLines 0 ((watcherDumpHistory w).map WatcherEvent.entry) ++ (endMark ++ [10])) := by
  rw [dumpText, if_neg h]

theorem utf8Bytes_marks : utf8Bytes dumpTitle = startMark ∧ utf8Bytes dumpEnd = endMark := by decide

/-- **A dump is recorded**, unless there is no event. -/
theorem reads_dumpText (hquiet : Quiet before)
    (hentries : (watcherDumpHistory w).map WatcherEvent.entry = entries)
    (hcount : w.count = entries.length) (htidy : ∀ e ∈ entries, Tidy e) : ∃ text dumps s',
    utf8Bytes text = utf8Bytes before ++ dumpText w ∧
      dumps.map utf8Bytes = (if entries = [] then [] else [eventLines 0 entries]) ∧
      ∀ s, Reads s text dumps s' := by
  have htitle : utf8Bytes (before ++ ['\n'] ++ (dumpTitle ++ ['\n'])) =
      utf8Bytes before ++ 10 :: (startMark ++ [10]) := by
    rw [utf8Bytes_append, utf8Bytes_append, utf8Bytes_append, utf8Bytes_marks.1, List.append_assoc]
    rfl
  by_cases hnone : entries = []
  · obtain ⟨message, hbytes, hone⟩ : ∃ message, utf8Bytes message = noEvents ∧ OneLine message :=
      ⟨"No events logged.".toList, by decide, by decide, by decide, by decide +kernel⟩
    have hzero : w.count = 0 := by rw [hcount, hnone]; rfl
    refine ⟨before ++ ['\n'] ++ (dumpTitle ++ ['\n']) ++ (message ++ ['\n']), [],
      ⟨message ++ ['\n'], true⟩, ?_, ?_, fun s => ?_⟩
    · rw [utf8Bytes_append, htitle, utf8Bytes_append, hbytes, dumpText_of_none hzero, List.append_assoc]
      rfl
    · rw [if_pos hnone]
      rfl
    · exact (reads_title hquiet s).append (hone.reads [])
  · obtain ⟨events, hevents, hreads⟩ := reads_eventLines htidy 0
    have hsome : w.count ≠ 0 := by
      rw [hcount]
      exact fun hzero => hnone (List.eq_nil_of_length_eq_zero hzero)
    have hend : readLine ⟨events, true⟩ (dumpEnd ++ ['\n']) = ([events], ⟨[], false⟩) := by
      have hnotitle : ¬ dumpTitle <:+: dumpEnd ++ ['\n'] := by decide +kernel
      rw [readLine, if_neg hnotitle, if_pos rfl, if_pos ⟨[], ['\n'], rfl⟩]
    refine ⟨before ++ ['\n'] ++ (dumpTitle ++ ['\n']) ++ (events ++ (dumpEnd ++ ['\n'])), [events],
      ⟨[], false⟩, ?_, ?_, fun s => ?_⟩
    · rw [utf8Bytes_append, htitle, utf8Bytes_append, utf8Bytes_append, hevents, utf8Bytes_marks.2,
        dumpText_of_some hsome, hentries, List.append_assoc]
      rfl
    · rw [if_neg hnone, List.map_singleton, hevents]
    · exact (reads_title hquiet s).append ((hreads []).append (reads_line (by decide) (by decide) hend))

end

/-! ### A run -/

/-- A dump after some calls of `watcher_log_event`, and what is printed before it. -/
structure Dump where
  before : List UInt8
  calls : List LogCall

/-- The events that are remembered. -/
def Dump.events (d : Dump) : List Entry := (d.calls.map LogCall.entry).drop (d.calls.length - 64)

/-- What is printed, by a watcher that was `w` before `watcher_init`. -/
def Dump.text (w : WatcherState) (d : Dump) : List UInt8 :=
  d.before ++ dumpText (run LogCall.exec (watcherInit w) d.calls)

/-- The bytes of what is given to `on_dump`. -/
def Dump.recorded (d : Dump) : List (List UInt8) := if d.events = [] then [] else [eventLines 0 d.events]

/-- What is printed between the marks and before them can be decoded and is no mark. -/
structure Dump.Clear (d : Dump) : Prop where
  quiet : ∃ text, utf8Bytes text = d.before ∧ Quiet text
  tidy : ∀ e ∈ d.events, Tidy e

/-- A clear dump is read. -/
theorem reads_dump (w : WatcherState) {d : Dump} (h : d.Clear) : ∃ text dumps s',
    utf8Bytes text = d.text w ∧ dumps.map utf8Bytes = d.recorded ∧ ∀ s, Reads s text dumps s' := by
  obtain ⟨before, hbefore, hquiet⟩ := h.quiet
  have hremembers := remembers_run w d.calls
  have hcount : (run LogCall.exec (watcherInit w) d.calls).count = d.events.length := by
    rw [hremembers.count, Dump.events, List.length_drop, List.length_map]
    omega
  have hevents := hremembers.dump
  rw [List.length_map] at hevents
  rw [Dump.text, ← hbefore]
  exact reads_dumpText hquiet hevents hcount h.tidy

/-- **The dumps are recorded.**  Whatever else is printed, if it is text and has no mark, `on_dump` is
called once for each dump with an event, with the lines of the last 64 events that were logged, in their
order. -/
theorem dumps_recorded (w : WatcherState) {dumps : List Dump} (hclear : ∀ d ∈ dumps, d.Clear)
    {behind : Word} (hbehind : ∀ line ∈ textLines false behind, Unmarked line) :
    (readerThread (dumps.flatMap (Dump.text w) ++ utf8Bytes behind)).map (List.map utf8Bytes) =
      some (dumps.flatMap Dump.recorded) := by
  have hreads : ∃ text, utf8Bytes text = dumps.flatMap (Dump.text w) ++ utf8Bytes behind ∧
      ∀ s, (onDumps s text).map utf8Bytes = dumps.flatMap Dump.recorded := by
    induction dumps with
    | nil => exact ⟨behind, rfl, fun s => congrArg (List.map utf8Bytes) (answers_unmarked hbehind s)⟩
    | cons d dumps ih =>
        obtain ⟨text, given, s', htext, hgiven, hdump⟩ := reads_dump w (hclear d List.mem_cons_self)
        obtain ⟨rest, hrest, hmore⟩ := ih fun d' hd' => hclear d' (List.mem_cons_of_mem d hd')
        refine ⟨text ++ rest, ?_, fun s => ?_⟩
        · rw [utf8Bytes_append, htext, hrest, List.flatMap_cons, List.append_assoc]
        · rw [hdump s rest, List.map_append, hgiven, hmore s', List.flatMap_cons]
  obtain ⟨text, htext, hgiven⟩ := hreads
  rw [← htext, readerThread, fromUtf8_utf8Bytes, Option.map_some, Option.map_some, hgiven]

/-- A watcher whose memory is zero. -/
def zeroWatcher : WatcherState := ⟨fun _ => ⟨0, .none, 0, fun _ => 0⟩, 0, 0, 0, 0⟩

/-- A dump before anything is logged, and one after a listing. -/
def twoDumps : List Dump :=
  [⟨ascii "boot\r\n", []⟩, ⟨ascii "> w.dump", [⟨.fsRead, 3, some (cString (ascii "ROOT_DIR")), 7⟩]⟩]

theorem clear_twoDumps : ∀ d ∈ twoDumps, d.Clear := by
  have hboot : Quiet "boot\r\n".toList := by
    unfold Quiet
    decide +kernel
  have hprompt : Quiet "> w.dump".toList := by
    unfold Quiet
    decide +kernel
  have hlisting : Dump.Clear
      ⟨ascii "> w.dump", [⟨.fsRead, 3, some (cString (ascii "ROOT_DIR")), 7⟩]⟩ := by
    refine ⟨⟨_, by decide, hprompt⟩, fun e he => ?_⟩
    rw [List.mem_singleton.1 he]
    exact ⟨"ROOT_DIR".toList, by decide +kernel, by decide, by decide, by decide +kernel⟩
  have hfirst : Dump.Clear ⟨ascii "boot\r\n", []⟩ :=
    ⟨⟨_, by decide, hboot⟩, fun e he => absurd he List.not_mem_nil⟩
  exact List.forall_mem_cons.2 ⟨hfirst, List.forall_mem_singleton.2 hlisting⟩

/-- The listing is recorded. -/
theorem listing_recorded :
    (readerThread (twoDumps.flatMap (Dump.text zeroWatcher) ++ utf8Bytes "> ".toList)).map
        (List.map utf8Bytes) =
      some [ascii "Event [0x0000000000000000] Type: 0x0000000000000002 | Ctx: ROOT_DIR\n"] := by
  have hbehind : ∀ line ∈ textLines false "> ".toList, Unmarked line := by decide +kernel
  rw [dumps_recorded zeroWatcher clear_twoDumps hbehind]
  decide +kernel

end Daemon
end AiOsExchange
