/-
# The line editor alone

What the shell executes depends on the characters that reach its line editor, and on nothing else:
in every run the lines executed and the line begun are those of `edited`, a function of the
characters typed (`edits_run`).  A shell that waits at its prompt can be typed to, one character at a
time, up to the end of a command (`exists_typing`).

| source | here |
| --- | --- |
| `cmd_buffer[0 .. cmd_idx]` | the second component of `edited` |
| the lines for which `cmd_idx > 0` at their end | the first |
-/

import AiOsExchange.Shell.Typed

namespace AiOsExchange
namespace Shell

open CMemory Computations Autarky Fat32 Kernel Rings Runs

/-- A character of the line editor. -/
def editStep (p : List (List UInt8) × List UInt8) (c : UInt8) : List (List UInt8) × List UInt8 :=
  if c = 10 ∨ c = 13 then if p.2 = [] then p else (p.1 ++ [p.2], [])
  else if c = 8 then (p.1, p.2.dropLast)
  else if p.2.length < cmdMaxLen - 1 then (p.1, p.2 ++ [c])
  else p

/-- The lines that the characters complete, and what they leave of another. -/
def edited (keys : List UInt8) : List (List UInt8) × List UInt8 := keys.foldl editStep ([], [])

section
variable {keys : List UInt8} {c : UInt8}

theorem edited_concat (keys : List UInt8) (c : UInt8) :
    edited (keys ++ [c]) = editStep (edited keys) c := by
  rw [edited, List.foldl_append]
  rfl

/-- More characters complete more lines. -/
theorem edited_append_lines (keys more : List UInt8) :
    (edited keys).1 <+: (edited (keys ++ more)).1 := by
  induction more using List.reverseRecOn with
  | nil => simp only [List.append_nil, List.prefix_rfl]
  | append_singleton more c ih =>
      refine ih.trans ?_
      rw [← List.append_assoc, edited_concat, editStep]
      split_ifs
      · exact List.prefix_rfl
      · exact List.prefix_append ..
      · exact List.prefix_rfl
      · exact List.prefix_rfl
      · exact List.prefix_rfl

/-- What a line can be: typed characters, at most 255 of them, and no character of control. -/
def Editable (keys line : List UInt8) : Prop :=
  line.length ≤ 255 ∧ ∀ b ∈ line, b ∈ keys ∧ b ≠ 8 ∧ b ≠ 10 ∧ b ≠ 13

theorem Editable.concat {line : List UInt8} (h : Editable keys line) (c : UInt8) :
    Editable (keys ++ [c]) line :=
  ⟨h.1, fun b hb => ⟨List.mem_append_left _ (h.2 b hb).1, (h.2 b hb).2⟩⟩

/-- **The lines of the editor** are such. -/
theorem editable_edited (keys : List UInt8) :
    (∀ line ∈ (edited keys).1, Editable keys line) ∧ Editable keys (edited keys).2 := by
  induction keys using List.reverseRecOn with
  | nil => exact ⟨nofun, Nat.zero_le _, nofun⟩
  | append_singleton keys c ih =>
      obtain ⟨hlines, hlen, hmem⟩ := ih
      have hlines' := fun line hl => (hlines line hl).concat c
      have hline' := (show Editable keys (edited keys).2 from ⟨hlen, hmem⟩).concat c
      rw [edited_concat, editStep]
      split_ifs with hnl hnil hbs hroom
      · exact ⟨hlines', hline'⟩
      · refine ⟨fun line hl => ?_, Nat.zero_le _, nofun⟩
        rcases List.mem_append.1 hl with hl | hl
        · exact hlines' line hl
        · rw [List.mem_singleton.1 hl]
          exact hline'
      · refine ⟨hlines', ?_, fun b hb => hline'.2 b ((List.dropLast_sublist _).mem hb)⟩
        exact ((List.dropLast_sublist _).length_le).trans hlen
      · rw [cmdMaxLen] at hroom
        refine ⟨hlines', ?_, fun b hb => ?_⟩
        · rw [List.length_append, List.length_singleton]
          omega
        · rcases List.mem_append.1 hb with hb | hb
          · exact hline'.2 b hb
          · rw [List.mem_singleton.1 hb]
            exact ⟨List.mem_append_right _ List.mem_cons_self, hbs, fun h => hnl (.inl h),
              fun h => hnl (.inr h)⟩
      · exact ⟨hlines', hline'⟩

/-- A line without characters of control is typed as it is. -/
theorem edited_plain {line : List UInt8} (hlen : line.length ≤ 255)
    (hplain : ∀ b ∈ line, b ≠ 8 ∧ b ≠ 10 ∧ b ≠ 13) : edited line = ([], line) := by
  induction line using List.reverseRecOn with
  | nil => rfl
  | append_singleton line c ih =>
      rw [List.length_append, List.length_singleton] at hlen
      obtain ⟨h8, h10, h13⟩ := hplain c (List.mem_append_right _ List.mem_cons_self)
      rw [edited_concat, ih (by omega) fun b hb => hplain b (List.mem_append_left _ hb), editStep,
        if_neg (not_or.2 ⟨h10, h13⟩), if_neg h8, if_pos (by rw [cmdMaxLen]; simp only; omega)]

/-- Characters that complete a line complete a first one. -/
theorem exists_first_line (h : (edited keys).1 ≠ []) :
    ∃ pre c line, pre ++ [c] <+: keys ∧ (edited pre).1 = [] ∧ (edited (pre ++ [c])).1 = [line] := by
  induction keys using List.reverseRecOn with
  | nil => exact absurd rfl h
  | append_singleton keys c ih =>
      by_cases hnil : (edited keys).1 = []
      · rw [edited_concat, editStep] at h
        have hstep : (editStep (edited keys) c).1 = [(edited keys).2] := by
          rw [editStep]
          split_ifs at h ⊢
          · exact absurd hnil h
          · simp only [hnil, List.nil_append]
          · exact absurd hnil h
          · exact absurd hnil h
          · exact absurd hnil h
        exact ⟨keys, c, _, List.prefix_rfl, hnil, by rw [edited_concat, hstep]⟩
      · obtain ⟨pre, c', line, hpre, hrest⟩ := ih hnil
        exact ⟨pre, c', line, hpre.trans (List.prefix_append ..), hrest⟩

end

/-! ### Every run -/

/-- The shell has executed, and holds, what the editor makes of the characters typed. -/
def Edits (s : ShellState) : Prop := (executedOf s.log, s.cmdBuffer) = edited (typedOf s.log)

theorem Edits.executed {s : ShellState} (h : Edits s) :
    executedOf s.log = (edited (typedOf s.log)).1 := congrArg Prod.fst h

section
variable {fmtValue : Value → List Char} {s : ShellState} {i : Input}

/-- **One character of the shell is one of the editor.** -/
theorem edits_typeChar {pay : Buf} {c : UInt8} (h : Edits s) (h0 : ∀ b ∈ typedOf s.log, b ≠ 0) :
    Edits (typeChar pay c s) := by
  obtain ⟨hex, hbuf⟩ := Prod.mk.inj h
  have hclean : s.cmdBuffer.takeWhile (· ≠ 0) = s.cmdBuffer := by
    refine List.takeWhile_eq_self_iff.2 fun b hb => ?_
    rw [hbuf] at hb
    simpa using h0 b ((editable_edited (typedOf s.log)).2.2 b hb).1
  have hty : typedOf (s.log ++ [.typed c]) = typedOf s.log ++ [c] := by simp [typedOf]
  have hexty : executedOf (s.log ++ [.typed c]) = executedOf s.log := by simp [executedOf]
  have hstep := (congrArg (editStep · c) h).trans (edited_concat _ _).symm
  rw [editStep] at hstep
  unfold typeChar
  simp only
  split_ifs with hnl hbs hroom
  · unfold enterLine
    simp only
    split_ifs with hnil
    · rw [if_pos hnl, if_pos hnil] at hstep
      rw [Edits, hexty, hty]
      exact hstep
    · rw [if_pos hnl, if_neg hnil] at hstep
      have hlines (line : List UInt8) :
          typedOf (s.log ++ [.typed c] ++ [.executed line]) = typedOf s.log ++ [c] ∧
            executedOf (s.log ++ [.typed c] ++ [.executed line]) = executedOf s.log ++ [line] := by
        simp [typedOf, executedOf]
      rw [Edits, (hlines _).1, (hlines _).2, hclean]
      exact hstep
  · rw [if_neg hnl, if_pos hbs] at hstep
    rw [Edits, hexty, hty]
    exact hstep
  · rw [if_neg hnl, if_neg hbs, if_pos hroom] at hstep
    rw [Edits, hexty, hty]
    exact hstep
  · rw [if_neg hnl, if_neg hbs, if_neg hroom] at hstep
    rw [Edits, hexty, hty]
    exact hstep

/-- What is logged besides characters and lines. -/
theorem Edits.log {log : List Event} {s' : ShellState} (h : Edits s) (hlog : s'.log = s.log ++ log)
    (hbuf : s'.cmdBuffer = s.cmdBuffer) (hty : typedOf log = []) (hex : executedOf log = []) :
    Edits s' := by
  rw [Edits, hlog, hbuf, typedOf_append, executedOf_append, hty, hex, List.append_nil,
    List.append_nil]
  exact h

/-- **Every step** keeps to the editor. -/
theorem edits_shellStep (h : Edits s) (h0 : ∀ b ∈ typedOf s.log, b ≠ 0) :
    Edits (shellStep fmtValue s i) := by
  obtain ⟨-, hty, hex⟩ := inputOf_map_input i.batch.chars
  unfold shellStep
  split
  · exact h.log rfl rfl hty hex
  · exact h.log rfl rfl hty hex
  · simp only
    split_ifs
    · exact @edits_typeChar { s with kernel := { s.kernel with ipc := (ipcReceive i.msg
        s.kernel.ipc).2 } } _ _ h h0
    · exact h
  · split <;> exact h
  · simp only
    split_ifs
    · exact h.log rfl rfl rfl rfl
    · exact h.log rfl rfl rfl rfl
    · exact h
  · exact h

/-- **Every run**, as long as no NUL is typed. -/
theorem edits_run (h : Edits s) (inputs : List Input)
    (h0 : ∀ b ∈ typedOf (run (shellStep fmtValue) s inputs).log, b ≠ 0) :
    Edits (run (shellStep fmtValue) s inputs) := by
  have hsub {log log' : List Event} (hpre : log <+: log') {b : UInt8} (hb : b ∈ typedOf log) :
      b ∈ typedOf log' := by
    obtain ⟨more, rfl⟩ := hpre
    rw [typedOf_append]
    exact List.mem_append_left _ hb
  have hstep (s : ShellState) (i : Input) (h : (∀ b ∈ typedOf s.log, b ≠ 0) → Edits s) :
      (∀ b ∈ typedOf (shellStep fmtValue s i).log, b ≠ 0) → Edits (shellStep fmtValue s i) := by
    intro h0
    have h0' : ∀ b ∈ typedOf s.log, b ≠ 0 := fun b hb => h0 b (hsub (log_shellStep s i) hb)
    exact edits_shellStep (h h0') h0'
  exact run_keeps hstep (fun _ => h) inputs h0

end

/-! ### Typing to a shell that waits -/

/-- The shell is at the top of its loop, and nothing is in the mailbox. -/
structure Waits (s : ShellState) : Prop where
  drain : s.control = .drain
  valid : s.kernel.ipc.Valid
  empty : s.kernel.ipc.messages = []

/-- A shell at its prompt: it waits, and nothing is typed of a line.  What is logged is what happens
from here on. -/
structure Idle (s : ShellState) : Prop extends Waits s where
  buffer : s.cmdBuffer = []
  log : s.log = []

section
variable {fmtValue : Value → List Char} {s : ShellState}

theorem Idle.edits (h : Idle s) : Edits s := by
  rw [Edits, h.log, h.buffer]
  rfl

/-- The line editor goes back to the top unless it executes a line. -/
theorem typeChar_drain {pay : Buf} {c : UInt8} (s : ShellState) :
    typedOf (typeChar pay c s).log = typedOf s.log ++ [c] ∧
      (executedOf (typeChar pay c s).log = executedOf s.log →
        (typeChar pay c s).control = .drain) := by
  have hty : typedOf (s.log ++ [.typed c]) = typedOf s.log ++ [c] := by simp [typedOf]
  unfold typeChar
  simp only
  split_ifs
  · unfold enterLine
    simp only
    split_ifs
    · exact ⟨hty, fun _ => rfl⟩
    · refine ⟨by simp [typedOf], fun hex => ?_⟩
      have := congrArg List.length hex
      simp [executedOf] at this
  · exact ⟨hty, fun _ => rfl⟩
  · exact ⟨hty, fun _ => rfl⟩
  · exact ⟨hty, fun _ => rfl⟩

/-- **A character typed**, and the shell waits again unless it executes a line. -/
theorem run_bringing {c : UInt8} (hc : ∀ b ∈ [c], b ≠ 0) (h : Waits s) :
    typedOf (run (shellStep fmtValue) s [bringing [c] hc, quiet]).log =
        typedOf s.log ++ [uartChar c] ∧
      (executedOf (run (shellStep fmtValue) s [bringing [c] hc, quiet]).log = executedOf s.log →
        Waits (run (shellStep fmtValue) s [bringing [c] hc, quiet])) := by
  have hbatch : (bringing [c] hc).batch.messages =
      [keyMessage sysModUart (fun _ => 0) (uartChar c)] := rfl
  obtain ⟨-, hty, hex⟩ := inputOf_map_input (bringing [c] hc).batch.chars
  have hvalid := (@mem_drained _ (bringing [c] hc).batch.messages h.valid).1
  have hms := @drained_of_fits _ (bringing [c] hc).batch.messages h.valid
    (by rw [h.empty, hbatch]; simp)
  rw [h.empty, List.nil_append, hbatch] at hms
  have hstep : shellStep fmtValue s (bringing [c] hc) =
      { drainStep (bringing [c] hc).batch s with control := .receive } := by
    simp only [shellStep, h.drain]
  obtain ⟨ipc, hipc, hrest, hkey⟩ := @receive_key fmtValue
    { drainStep (bringing [c] hc).batch s with control := .receive } quiet _ _ hvalid rfl hms
    ⟨rfl, Nat.one_pos⟩
  rw [run_cons, run_cons, run_nil, hstep, hkey]
  have hpayload : (keyMessage sysModUart (fun _ => 0) (uartChar c)).payload 0 = uartChar c := by
    simp [keyMessage, put]
  rw [hpayload]
  have hlog : typedOf (drainStep (bringing [c] hc).batch s).log = typedOf s.log ∧
      executedOf (drainStep (bringing [c] hc).batch s).log = executedOf s.log := by
    rw [drainStep, typedOf_append, executedOf_append, hty, hex, List.append_nil, List.append_nil]
    exact ⟨rfl, rfl⟩
  obtain ⟨htyped, hdrain⟩ := @typeChar_drain quiet.pay (uartChar c)
    { drainStep (bringing [c] hc).batch s with
      control := .receive
      kernel := { (drainStep (bringing [c] hc).batch s).kernel with ipc := ipc } }
  refine ⟨htyped.trans (by rw [hlog.1]), fun hsame => ?_⟩
  refine ⟨hdrain (hsame.trans hlog.2.symm), ?_, ?_⟩
  · rw [(typeChar_control _ _ _).1]
    exact hipc
  · rw [(typeChar_control _ _ _).1]
    exact hrest

theorem uartChar_ne_zero {c : UInt8} (hc : c ≠ 0) : uartChar c ≠ 0 := by
  rw [uartChar]
  split_ifs
  · decide
  · exact hc

/-- **A shell at its prompt can be typed to**, up to the end of the first line it executes. -/
theorem exists_typing (h : Idle s) (chars : List UInt8) (h0 : ∀ c ∈ chars, c ≠ 0)
    (hnone : ∀ pre c, pre ++ [c] <+: chars → (edited (pre.map uartChar)).1 = []) :
    ∃ inputs, typedOf (run (shellStep fmtValue) s inputs).log = chars.map uartChar ∧
      ((edited (chars.map uartChar)).1 = [] → Waits (run (shellStep fmtValue) s inputs)) := by
  induction chars using List.reverseRecOn with
  | nil => exact ⟨[], by rw [run_nil, h.log]; rfl, fun _ => h.toWaits⟩
  | append_singleton chars c ih =>
      obtain ⟨inputs, hty, hwaits⟩ := ih (fun b hb => h0 b (List.mem_append_left _ hb))
        fun pre c' hpre => hnone pre c' (hpre.trans (List.prefix_append ..))
      have hnil := hnone chars c List.prefix_rfl
      have hc : ∀ b ∈ [c], b ≠ 0 := fun b hb => h0 b (List.mem_append_right _ hb)
      obtain ⟨htyped, hnext⟩ := @run_bringing fmtValue _ c hc (hwaits hnil)
      rw [← run_append, hty] at htyped
      have hall : typedOf (run (shellStep fmtValue) s (inputs ++ [bringing [c] hc, quiet])).log =
          (chars ++ [c]).map uartChar := by
        rw [htyped, List.map_append]
        rfl
      refine ⟨_, hall, fun hend => ?_⟩
      rw [← run_append] at hnext
      have hzero : ∀ b ∈ (chars ++ [c]).map uartChar, b ≠ 0 := by
        intro b hb
        obtain ⟨b', hb', rfl⟩ := List.mem_map.1 hb
        exact uartChar_ne_zero (h0 b' hb')
      have hbefore := (@edits_run fmtValue s h.edits inputs (by
        rw [hty]
        intro b hb
        exact hzero b (by rw [List.map_append]; exact List.mem_append_left _ hb))).executed
      have hafter := (@edits_run fmtValue s h.edits (inputs ++ [bringing [c] hc, quiet])
        (by rw [hall]; exact hzero)).executed
      exact hnext (by rw [hafter, hall, hend, hbefore, hty, hnil])

end

end Shell
end AiOsExchange
