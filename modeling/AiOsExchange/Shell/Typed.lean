/-
# What becomes of the characters typed

Key presses and replies share one mailbox, and the loops that wait for a reply throw away whatever
else they receive.  A key press that is pending when a request is sent is lost; nothing else is.  So
what is typed is acted on in its order, and the command lines executed are the lines typed, exactly
in the runs that send every request with an empty mailbox (`input_kept_iff`).

| notion | here |
| --- | --- |
| the characters the hardware gave to the drains | `inputOf` |
| those the line editor acted on, those still in the mailbox | `typedOf`, `pendingOf` |
| the lines of a text, with backspaces applied | `commandLines` |
-/

import AiOsExchange.Shell.Answered
import Mathlib.Data.List.Induction

namespace AiOsExchange
namespace Shell

open CMemory Computations Autarky Fat32 Kernel Rings Runs

/-! ### Lines -/

/-- A character joins the line that is being typed, or ends it. -/
def splitStep (p : List (List UInt8) × List UInt8) (c : UInt8) : List (List UInt8) × List UInt8 :=
  if c = 10 ∨ c = 13 then (p.1 ++ [p.2], []) else (p.1, p.2 ++ [c])

/-- The lines of a text, and what is behind the last of them. -/
def splitLines (text : List UInt8) : List (List UInt8) × List UInt8 := text.foldl splitStep ([], [])

/-- A line with its backspaces applied. -/
def erased (line : List UInt8) : List UInt8 :=
  line.foldl (fun cmd c => if c = 8 then cmd.dropLast else cmd ++ [c]) []

/-- The command lines of a text. -/
def commandLines (text : List UInt8) : List (List UInt8) :=
  ((splitLines text).1.map erased).filter (· ≠ [])

/-- No line has more than 255 characters. -/
def LinesFit (text : List UInt8) : Prop :=
  (∀ line ∈ (splitLines text).1, line.length ≤ 255) ∧ (splitLines text).2.length ≤ 255

instance (text : List UInt8) : Decidable (LinesFit text) := inferInstanceAs (Decidable (_ ∧ _))

theorem splitLines_concat (text : List UInt8) (c : UInt8) :
    splitLines (text ++ [c]) = splitStep (splitLines text) c := by
  rw [splitLines, List.foldl_append]
  rfl

theorem linesFit_of_concat {text : List UInt8} {c : UInt8} (h : LinesFit (text ++ [c])) :
    LinesFit text := by
  rw [LinesFit, splitLines_concat, splitStep] at h
  split_ifs at h
  · exact ⟨fun line hl => h.1 line (List.mem_append_left _ hl),
      h.1 _ (List.mem_append_right _ (List.mem_singleton.2 rfl))⟩
  · refine ⟨h.1, ?_⟩
    have := h.2
    rw [List.length_append, List.length_singleton] at this
    omega

/-- The lines of the beginning of a text fit, where those of the text do. -/
theorem LinesFit.of_append {text more : List UInt8} (h : LinesFit (text ++ more)) : LinesFit text := by
  induction more using List.reverseRecOn with
  | nil => rwa [List.append_nil] at h
  | append_singleton more c ih =>
      rw [← List.append_assoc] at h
      exact ih (linesFit_of_concat h)

theorem erased_concat (line : List UInt8) (c : UInt8) :
    erased (line ++ [c]) = if c = 8 then (erased line).dropLast else erased line ++ [c] := by
  rw [erased, List.foldl_append]
  rfl

theorem erased_length_le (line : List UInt8) : (erased line).length ≤ line.length := by
  induction line using List.reverseRecOn with
  | nil => exact Nat.le_refl _
  | append_singleton line c ih =>
      rw [erased_concat]
      split_ifs
      · simp
        omega
      · simp
        omega

/-- Erasing makes no characters. -/
theorem mem_of_mem_erased {line : List UInt8} {b : UInt8} (h : b ∈ erased line) : b ∈ line := by
  induction line using List.reverseRecOn with
  | nil => exact h
  | append_singleton line c ih =>
      rw [erased_concat] at h
      split_ifs at h
      · exact List.mem_append_left _ (ih ((List.dropLast_sublist _).mem h))
      · rcases List.mem_append.1 h with h | h
        · exact List.mem_append_left _ (ih h)
        · exact List.mem_append_right _ h

/-! ### Characters -/

/-- The characters the hardware gave. -/
def inputOf (log : List Event) : List UInt8 :=
  log.filterMap fun
    | .input c => some c
    | _ => none

/-- The characters the line editor acted on. -/
def typedOf (log : List Event) : List UInt8 :=
  log.filterMap fun
    | .typed c => some c
    | _ => none

/-- The command lines executed. -/
def executedOf (log : List Event) : List (List UInt8) :=
  log.filterMap fun
    | .executed line => some line
    | _ => none

/-- The characters in the mailbox. -/
def pendingOf (ms : List OsMessage) : List UInt8 :=
  ms.filterMap fun m => if m.type = .keyPress then some (m.payload 0) else none

/-- **Nothing typed is lost or reordered**: the line editor has acted on the characters in their
order, those it has not come to are in the mailbox, and it has executed the lines typed. -/
structure Kept (s : ShellState) : Prop where
  order : typedOf s.log ++ pendingOf s.kernel.ipc.messages = inputOf s.log
  lines : executedOf s.log = commandLines (typedOf s.log)

/-- The messages of a drain fit the mailbox. -/
def Fits (s : ShellState) (i : Input) : Prop :=
  s.control.drains = true → s.kernel.ipc.messages.length + i.batch.messages.length ≤ 255

instance (s : ShellState) (i : Input) : Decidable (Fits s i) := inferInstanceAs (Decidable (_ → _))

/-- A request is sent with an empty mailbox. -/
def SendsAlone (s : ShellState) (_ : Input) : Prop :=
  s.control.sends = true → s.kernel.ipc.messages = []

instance (s : ShellState) (i : Input) : Decidable (SendsAlone s i) :=
  inferInstanceAs (Decidable (_ → _))

/-! ### The line editor -/

theorem mem_of_mem_splitLines {text : List UInt8} {b : UInt8} (h : b ∈ (splitLines text).2) :
    b ∈ text := by
  induction text using List.reverseRecOn with
  | nil => exact h
  | append_singleton text c ih =>
      rw [splitLines_concat, splitStep] at h
      split_ifs at h
      · exact absurd h List.not_mem_nil
      · rcases List.mem_append.1 h with h | h
        · exact List.mem_append_left _ (ih h)
        · exact List.mem_append_right _ h

/-- The end of a line adds what was typed of it, unless that is nothing. -/
theorem commandLines_newline {text : List UInt8} {c : UInt8} (hc : c = 10 ∨ c = 13) :
    commandLines (text ++ [c]) = commandLines text ++
      if erased (splitLines text).2 = [] then [] else [erased (splitLines text).2] := by
  rw [commandLines, splitLines_concat, splitStep, if_pos hc, List.map_append, List.filter_append,
    commandLines]
  congr 1
  by_cases hnil : erased (splitLines text).2 = [] <;> simp [hnil]

theorem commandLines_other {text : List UInt8} {c : UInt8} (hc : ¬(c = 10 ∨ c = 13)) :
    commandLines (text ++ [c]) = commandLines text := by
  rw [commandLines, splitLines_concat, splitStep, if_neg hc, commandLines]

@[simp] theorem inputOf_append (log more : List Event) :
    inputOf (log ++ more) = inputOf log ++ inputOf more := List.filterMap_append

@[simp] theorem typedOf_append (log more : List Event) :
    typedOf (log ++ more) = typedOf log ++ typedOf more := List.filterMap_append

@[simp] theorem executedOf_append (log more : List Event) :
    executedOf (log ++ more) = executedOf log ++ executedOf more := List.filterMap_append

@[simp] theorem pendingOf_append (ms more : List OsMessage) :
    pendingOf (ms ++ more) = pendingOf ms ++ pendingOf more := List.filterMap_append

/-- The line editor holds what is typed of the last line. -/
def Editing (s : ShellState) : Prop := s.cmdBuffer = erased (splitLines (typedOf s.log)).2

/-- **One character of the line editor**: it is acted on, the lines executed stay the lines typed,
and what is held stays what is typed of the last. -/
theorem typeChar_spec {pay : Buf} {c : UInt8} {s : ShellState} (hbuf : Editing s)
    (hlines : executedOf s.log = commandLines (typedOf s.log)) (hfit : LinesFit (typedOf s.log ++ [c]))
    (h0 : ∀ b ∈ typedOf s.log, b ≠ 0) :
    inputOf (typeChar pay c s).log = inputOf s.log ∧
      typedOf (typeChar pay c s).log = typedOf s.log ++ [c] ∧
      executedOf (typeChar pay c s).log = commandLines (typedOf s.log ++ [c]) ∧
      Editing (typeChar pay c s) := by
  have hclean : s.cmdBuffer.takeWhile (· ≠ 0) = s.cmdBuffer := by
    refine List.takeWhile_eq_self_iff.2 fun b hb => ?_
    rw [hbuf] at hb
    simpa using h0 b (mem_of_mem_splitLines (mem_of_mem_erased hb))
  have hlog : typedOf (s.log ++ [.typed c]) = typedOf s.log ++ [c] := by simp [typedOf]
  have hlogin : inputOf (s.log ++ [.typed c]) = inputOf s.log := by simp [inputOf]
  have hlogex : executedOf (s.log ++ [.typed c]) = executedOf s.log := by simp [executedOf]
  unfold typeChar
  simp only
  split_ifs with hnl hbs hlen
  · -- the line ends
    have hsplit : (splitLines (typedOf s.log ++ [c])).2 = [] := by
      rw [splitLines_concat, splitStep, if_pos hnl]
    unfold enterLine
    simp only
    split_ifs with hnil
    · refine ⟨hlogin, hlog, ?_, ?_⟩
      · rw [hlogex, hlines, commandLines_newline hnl, if_pos (hbuf ▸ hnil), List.append_nil]
      · rw [Editing, hlog, hsplit]
        exact hnil
    · have htyped (line : List UInt8) :
          typedOf (s.log ++ [.typed c] ++ [.executed line]) = typedOf s.log ++ [c] := by
        simp [typedOf]
      refine ⟨by simp [inputOf], htyped _, ?_, ?_⟩
      · rw [hclean, executedOf_append, hlogex, hlines, commandLines_newline hnl,
          if_neg (hbuf ▸ hnil), hbuf]
        rfl
      · rw [Editing, htyped, hsplit]
        rfl
  all_goals
    refine ⟨hlogin, hlog, by rw [hlogex, hlines, commandLines_other hnl], ?_⟩
    rw [Editing, hlog, splitLines_concat, splitStep, if_neg hnl, erased_concat]
  · -- a backspace
    rw [if_pos hbs, ← hbuf]
  · rw [if_neg hbs, ← hbuf]
  · -- the line is full
    have hle := hfit.2
    have herased := erased_length_le (splitLines (typedOf s.log)).2
    rw [splitLines_concat, splitStep, if_neg hnl, List.length_append, List.length_singleton] at hle
    rw [hbuf, cmdMaxLen] at hlen
    omega

/-! ### The steps -/

/-- Nothing is lost so far, and a loop that waits has nothing to throw away. -/
structure InOrder (s : ShellState) : Prop extends Kept s where
  editing : Editing s
  nonzero : ∀ b ∈ inputOf s.log, b ≠ 0
  alone : ∀ type listening, s.control = .waiting type listening →
    pendingOf s.kernel.ipc.messages = []

theorem pendingOf_cons {m : OsMessage} {ms : List OsMessage} (h : m.type = .keyPress) :
    pendingOf (m :: ms) = m.payload 0 :: pendingOf ms := by
  simp [pendingOf, h]

theorem pendingOf_reply {m : OsMessage} (h : m.type ≠ .keyPress) : pendingOf [m] = [] := by
  simp [pendingOf, h]

theorem pendingOf_keys (sender : ℕ) (pay : Buf) (cs : List UInt8) :
    pendingOf (cs.map (keyMessage sender pay)) = cs := by
  induction cs with
  | nil => rfl
  | cons c cs ih =>
      rw [List.map_cons, pendingOf_cons rfl, ih]
      simp [keyMessage, put]

/-- A drain puts its characters in the mailbox. -/
theorem pendingOf_batch (b : Batch) : pendingOf b.messages = b.chars := by
  have huart : b.uart.map (fun c => keyMessage sysModUart b.pay (uartChar c)) =
      (b.uart.map uartChar).map (keyMessage sysModUart b.pay) := by
    rw [List.map_map]
    rfl
  rw [Batch.messages, huart, pendingOf_append, pendingOf_keys, pendingOf_keys, Batch.chars]

theorem inputOf_map_input (cs : List UInt8) :
    inputOf (cs.map .input) = cs ∧ typedOf (cs.map .input) = [] ∧ executedOf (cs.map .input) = [] := by
  induction cs with
  | nil => exact ⟨rfl, rfl, rfl⟩
  | cons c cs ih =>
      obtain ⟨h1, h2, h3⟩ := ih
      exact ⟨congrArg (c :: ·) h1, h2, h3⟩

theorem chars_nonzero (b : Batch) : ∀ c ∈ b.chars, c ≠ 0 := by
  intro c hc
  rcases List.mem_append.1 hc with hk | hu
  · exact b.nonzero c (List.mem_append_left _ hk)
  · obtain ⟨d, hd, rfl⟩ := List.mem_map.1 hu
    rw [uartChar]
    split_ifs
    · decide
    · exact b.nonzero d (List.mem_append_right _ hd)

section
variable {fmtValue : Value → List Char} {s : ShellState} {i : Input}

/-- A drain that fits. -/
theorem inOrder_drain (hv : s.kernel.ipc.Valid) (h : InOrder s)
    (hfits : s.kernel.ipc.messages.length + i.batch.messages.length ≤ 255) {control : Control}
    (hc : ∀ type listening, control ≠ .waiting type listening) :
    InOrder { drainStep i.batch s with control := control } := by
  obtain ⟨hin, hty, hex⟩ := inputOf_map_input i.batch.chars
  have hms : (drainHardwareQueues i.batch s.kernel.ipc).messages = _ := drained_of_fits hv hfits
  have htyped : typedOf (s.log ++ i.batch.chars.map .input) = typedOf s.log := by
    rw [typedOf_append, hty, List.append_nil]
  have hinput : inputOf (s.log ++ i.batch.chars.map .input) = inputOf s.log ++ i.batch.chars := by
    rw [inputOf_append, hin]
  constructor
  · constructor
    · simp only [drainStep]
      rw [htyped, hinput, hms, pendingOf_append, pendingOf_batch, ← List.append_assoc, h.order]
    · simp only [drainStep]
      rw [htyped, executedOf_append, hex, List.append_nil, h.lines]
  · rw [Editing]
    simp only [drainStep]
    rw [htyped]
    exact h.editing
  · simp only [drainStep]
    rw [hinput]
    intro b hb
    rcases List.mem_append.1 hb with hb | hb
    · exact h.nonzero b hb
    · exact chars_nonzero i.batch b hb
  · exact fun type listening hw => absurd hw (hc type listening)

/-- The place of the loop alone does not matter. -/
theorem InOrder.goto {control : Control} (h : InOrder s)
    (hc : ∀ type listening, control ≠ .waiting type listening) :
    InOrder { s with control := control } :=
  ⟨⟨h.order, h.lines⟩, h.editing, h.nonzero, fun type listening hw => absurd hw (hc type listening)⟩

/-- A key press acted on. -/
theorem inOrder_key {pay : Buf} {m : OsMessage} {ms : List OsMessage} {ipc : Mailbox} (h : InOrder s)
    (hms : s.kernel.ipc.messages = m :: ms) (hkey : KeyPress m) (hrest : ipc.messages = ms)
    (hfit : LinesFit (inputOf s.log)) :
    InOrder (typeChar pay (m.payload 0) { s with kernel := { s.kernel with ipc := ipc } }) := by
  have horder := h.order
  rw [hms, pendingOf_cons hkey.1, List.append_cons] at horder
  rw [← horder] at hfit
  have h0 : ∀ b ∈ typedOf s.log, b ≠ 0 := fun b hb => h.nonzero b <| by
    rw [← horder]
    exact List.mem_append_left _ (List.mem_append_left _ hb)
  obtain ⟨hin, hty, hex, hedit⟩ := @typeChar_spec pay (m.payload 0)
    { s with kernel := { s.kernel with ipc := ipc } } h.editing h.lines hfit.of_append h0
  obtain ⟨hkernel, hcontrol⟩ := typeChar_control pay (m.payload 0)
    { s with kernel := { s.kernel with ipc := ipc } }
  refine ⟨⟨?_, by rw [hex, hty]⟩, hedit, by rw [hin]; exact h.nonzero, ?_⟩
  · rw [hty, hin, hkernel]
    simp only [hrest]
    exact horder
  · intro type listening hw
    obtain hd | hl | ⟨req, hs, -⟩ := hcontrol
    · rw [hd] at hw
      cases hw
    · rw [hl] at hw
      cases hw
    · rw [hs] at hw
      cases hw

/-- **Every step keeps the order**, where drains fit and requests are sent with an empty mailbox. -/
theorem inOrder_step (hsound : MailboxSound s) (h : InOrder s) (hfit : LinesFit (inputOf s.log))
    (hfits : Fits s i) (halone : SendsAlone s i) : InOrder (shellStep fmtValue s i) := by
  have hv := hsound.valid
  have hexp := hsound.expected
  rcases hc : s.control with _ | _ | ⟨req, listening⟩ | ⟨type, listening⟩ | _ | ⟨payload, timeout⟩
  · simp only [shellStep, hc]
    exact inOrder_drain hv h (hfits (by rw [hc]; rfl)) fun _ _ => by simp
  · cases hms : s.kernel.ipc.messages with
    | nil =>
        rw [receive_nothing hv hc hms]
        exact h.goto fun _ _ => by simp
    | cons m ms =>
        rw [hc, hms] at hexp
        have hkey : KeyPress m := hexp m List.mem_cons_self
        obtain ⟨ipc, -, hrest, hstep⟩ := @receive_key fmtValue s i m ms hv hc hms hkey
        rw [hstep]
        exact inOrder_key h hms hkey hrest hfit
  · by_cases hr : ∃ k', sysIpcSend fmtValue i.fuel i.loc req s.kernel = (.ok (), k')
    · obtain ⟨k', hr⟩ := hr
      rw [hc] at hexp
      obtain ⟨reply, htype, -, hms, hstep⟩ := send_spec hsound hc hr
      have hempty := halone (by rw [hc]; rfl)
      -- only the reply is in the mailbox, and it is no key press
      have hpending : pendingOf k'.ipc.messages = pendingOf s.kernel.ipc.messages := by
        rw [hms, hempty, List.nil_append,
          pendingOf_reply fun hk => respType_ne_keyPress hexp.1 (htype.symm.trans hk)]
        rfl
      rw [hstep]
      refine ⟨⟨?_, h.lines⟩, h.editing, h.nonzero, fun _ _ _ => ?_⟩
      · simp only [hpending]
        exact h.order
      · simp only [hpending, hempty]
        rfl
    · push Not at hr
      rw [send_stuck hc hr]
      exact h
  · have hnone := h.alone type listening hc
    rw [hc] at hexp
    obtain ⟨hne, keys, reply, hms, htype, hkeys⟩ := hexp
    cases keys with
    | nil =>
        obtain ⟨ipc, -, hrest, hstep⟩ := @waiting_reply fmtValue s i _ _ _ _ hv hc hms htype
        have horder := h.order
        rw [hnone] at horder
        have hin : inputOf (s.log ++ [.replied reply]) = inputOf s.log := by simp [inputOf]
        have hty : typedOf (s.log ++ [.replied reply]) = typedOf s.log := by simp [typedOf]
        have hex : executedOf (s.log ++ [.replied reply]) = executedOf s.log := by
          simp [executedOf]
        rw [hstep]
        refine ⟨⟨?_, by rw [hex, hty, h.lines]⟩, ?_, by rw [hin]; exact h.nonzero, ?_⟩
        · simp only [hty, hin, hrest]
          exact horder
        · rw [Editing, hty]
          exact h.editing
        · intro type' listening' hw
          cases listening <;> cases hw
    | cons m keys =>
        rw [hms, List.cons_append, pendingOf_cons (hkeys m List.mem_cons_self).1] at hnone
        cases hnone
  · simp only [shellStep, hc]
    exact inOrder_drain hv h (hfits (by rw [hc]; rfl)) fun _ _ => by simp
  · simp only [shellStep, hc]
    refine h.goto fun type listening hw => ?_
    obtain ⟨_, _, hl⟩ | ⟨req, hs, -⟩ := captureChar_control i.pay i.uart payload timeout
    · rw [hl] at hw
      cases hw
    · rw [hs] at hw
      cases hw

/-- The line editor only adds to the log. -/
theorem log_typeChar (pay : Buf) (c : UInt8) (s : ShellState) : s.log <+: (typeChar pay c s).log := by
  have htyped : s.log <+: s.log ++ [.typed c] := List.prefix_append ..
  unfold typeChar
  simp only
  split_ifs
  · unfold enterLine
    simp only
    split_ifs
    · exact htyped
    · exact htyped.trans (List.prefix_append ..)
  · exact htyped
  · exact htyped
  · exact htyped

/-- A step only adds to the log. -/
theorem log_shellStep (s : ShellState) (i : Input) : s.log <+: (shellStep fmtValue s i).log := by
  unfold shellStep
  split
  · exact List.prefix_append ..
  · exact List.prefix_append ..
  · simp only
    split_ifs
    · exact log_typeChar _ _
        { s with kernel := { s.kernel with ipc := (ipcReceive i.msg s.kernel.ipc).2 } }
    · exact List.prefix_rfl
  · split <;> exact List.prefix_rfl
  · simp only
    split_ifs
    · exact List.prefix_append ..
    · exact List.prefix_append ..
    · exact List.prefix_rfl
  · exact List.prefix_rfl

theorem linesFit_of_log {log log' : List Event} (h : LinesFit (inputOf log')) (hpre : log <+: log') :
    LinesFit (inputOf log) := by
  obtain ⟨more, rfl⟩ := hpre
  rw [inputOf_append] at h
  exact h.of_append

theorem log_run (s : ShellState) (inputs : List Input) :
    s.log <+: (run (shellStep fmtValue) s inputs).log := by
  induction inputs generalizing s with
  | nil => exact List.prefix_rfl
  | cons i inputs ih => exact (log_shellStep s i).trans (ih _)

/-! ### Key presses that are pending when a request is sent -/

/-- A loop that waits with a key press before it throws it away. -/
theorem not_order_of_waiting {type : IpcMsg} {listening : Bool} {m : OsMessage} {ms : List OsMessage}
    (hv : s.kernel.ipc.Valid) (hc : s.control = .waiting type listening)
    (hms : s.kernel.ipc.messages = m :: ms) (hkey : m.type = .keyPress) (hne : type ≠ .keyPress)
    (horder : typedOf s.log ++ pendingOf s.kernel.ipc.messages = inputOf s.log) :
    ¬Kept (shellStep fmtValue s i) := by
  intro h
  obtain ⟨ipc, -, hrest, hstep⟩ := @waiting_key fmtValue s i _ _ _ _ hv hc hms
    fun heq => hne (heq.symm.trans hkey)
  rw [hstep] at h
  have hnext := h.order
  simp only [hrest] at hnext
  rw [hms, pendingOf_cons hkey, ← hnext] at horder
  have := congrArg List.length horder
  simp at this

/-- The run gets no further than the waiting loop, unless something is lost. -/
theorem control_of_pending {req : OsMessage} {listening : Bool} {inputs : List Input}
    (hsound : MailboxSound s) (hc : s.control = .send req listening)
    (hpending : s.kernel.ipc.messages ≠ [])
    (hkept : ∀ pre, pre <+: inputs → Kept (run (shellStep fmtValue) s pre)) :
    (run (shellStep fmtValue) s inputs).control ≠ .drain := by
  induction inputs with
  | nil =>
      rw [run_nil, hc]
      simp
  | cons i inputs ih =>
      have hexp := hsound.expected
      rw [hc] at hexp
      by_cases hr : ∃ k', sysIpcSend fmtValue i.fuel i.loc req s.kernel = (.ok (), k')
      · obtain ⟨k', hr⟩ := hr
        obtain ⟨reply, -, hvalid, hms, hstep⟩ := send_spec hsound hc hr
        obtain ⟨m, ms, hcons⟩ := List.exists_cons_of_ne_nil hpending
        rw [hcons, List.cons_append] at hms
        have hkey : m.type = .keyPress := (hexp.2.2 m (hcons ▸ List.mem_cons_self)).1
        cases inputs with
        | nil =>
            rw [run_cons, run_nil, hstep]
            simp
        | cons j inputs =>
            have h1 := hkept [i] (by simp)
            have h2 := hkept [i, j] (by simp)
            rw [run_cons, run_nil, hstep] at h1
            rw [run_cons, run_cons, run_nil, hstep] at h2
            exact absurd h2 (not_order_of_waiting hvalid rfl hms hkey (respType_ne_keyPress hexp.1)
              h1.order)
      · push Not at hr
        have hstep := send_stuck hc hr
        rw [run_cons, hstep]
        refine ih fun pre hpre => ?_
        have h := hkept (i :: pre) (List.cons_prefix_cons.2 ⟨rfl, hpre⟩)
        rwa [run_cons, hstep] at h

/-- A run that loses nothing and comes back to the top of the loop sends its requests with an empty
mailbox. -/
theorem sendsAlone_of_kept {inputs : List Input} (hsound : MailboxSound s)
    (hend : (run (shellStep fmtValue) s inputs).control = .drain)
    (hkept : ∀ pre, pre <+: inputs → Kept (run (shellStep fmtValue) s pre)) :
    StepsMeet (shellStep fmtValue) SendsAlone s inputs := by
  induction inputs generalizing s with
  | nil => trivial
  | cons i inputs ih =>
      refine ⟨fun hsends => ?_, ih (mailboxSound_step hsound) hend fun pre hpre => ?_⟩
      · by_contra hpending
        obtain ⟨req, listening, hc⟩ : ∃ req listening, s.control = .send req listening := by
          rcases hc : s.control with _ | _ | ⟨req, listening⟩ | _ | _ | _
          case send => exact ⟨req, listening, rfl⟩
          all_goals
            rw [hc] at hsends
            cases hsends
        exact control_of_pending hsound hc hpending hkept hend
      · exact hkept (i :: pre) (List.cons_prefix_cons.2 ⟨rfl, hpre⟩)

end

/-! ### Runs -/

theorem inOrder_start (kernel : KernelState) : InOrder (shellStart kernel) := by
  have hnil : (shellStart kernel).kernel.ipc.messages = [] := by
    rw [shellStart, Mailbox.messages, between_self]
  exact ⟨⟨by rw [hnil]; rfl, rfl⟩, rfl, fun b hb => absurd hb List.not_mem_nil, fun _ _ h => by cases h⟩

/-- **Typed input is kept exactly where requests are sent with an empty mailbox**, in the runs whose
drains fit the mailbox and whose lines fit the line editor.  The converse is about runs that have
come back to the top of the loop. -/
theorem input_kept_iff (fmtValue : Value → List Char) (kernel : KernelState) (inputs : List Input)
    (hfits : StepsMeet (shellStep fmtValue) Fits (shellStart kernel) inputs)
    (hlines : LinesFit (inputOf (run (shellStep fmtValue) (shellStart kernel) inputs).log)) :
    (StepsMeet (shellStep fmtValue) SendsAlone (shellStart kernel) inputs →
      ∀ pre, pre <+: inputs → Kept (run (shellStep fmtValue) (shellStart kernel) pre)) ∧
    ((run (shellStep fmtValue) (shellStart kernel) inputs).control = .drain →
      (∀ pre, pre <+: inputs → Kept (run (shellStep fmtValue) (shellStart kernel) pre)) →
        StepsMeet (shellStep fmtValue) SendsAlone (shellStart kernel) inputs) := by
  refine ⟨fun halone pre hpre => ?_, sendsAlone_of_kept (mailboxSound_start kernel)⟩
  have hstep (s : ShellState) (i : Input)
      (h : MailboxSound s ∧ (LinesFit (inputOf s.log) → InOrder s)) (hok : Fits s i ∧ SendsAlone s i) :
      MailboxSound (shellStep fmtValue s i) ∧
        (LinesFit (inputOf (shellStep fmtValue s i).log) → InOrder (shellStep fmtValue s i)) := by
    refine ⟨mailboxSound_step h.1, fun hfit => ?_⟩
    have hfit' := linesFit_of_log hfit (log_shellStep s i)
    exact inOrder_step h.1 (h.2 hfit') hfit' hok.1 hok.2
  have hrun := run_invariant hstep ⟨mailboxSound_start kernel, fun _ => inOrder_start kernel⟩
    ((hfits.and halone).of_isPrefix hpre)
  obtain ⟨more, rfl⟩ := hpre
  rw [run_append] at hlines
  exact (hrun.2 (linesFit_of_log hlines (log_run _ more))).toKept

/-! ### Two runs -/

/-- One command: the request is sent with an empty mailbox. -/
def oneCommand : List Input :=
  bringing (ascii "s.ls\n") (forall_mem_of_all (by decide)) :: List.replicate 12 quiet

/-- Two commands in one drain. -/
def twoCommands : List Input :=
  bringing (ascii "s.ls\nhelp\n") (forall_mem_of_all (by decide)) :: List.replicate 11 quiet

/-- A shell on an empty volume. -/
def idleShell : ShellState := shellStart (kernelOn blankVolume)

theorem one_command_kept : Kept (run (shellStep fun _ => []) idleShell oneCommand) := by
  have halone : StepsMeet (shellStep fun _ => []) SendsAlone idleShell oneCommand := by
    decide +kernel
  exact (input_kept_iff (fun _ => []) (kernelOn blankVolume) oneCommand (by decide +kernel)
    (by decide +kernel)).1 halone _ List.prefix_rfl

/-- No line of the text is `trade.listen`. -/
def NoListen (text : List UInt8) : Prop :=
  ∀ line ∈ commandLines text, ∀ pay, command pay line ≠ .listen

/-- **A command typed ahead is lost**: the reply to the first is waited for by receiving the
characters of the second. -/
theorem typed_ahead_lost : ¬∀ fmtValue kernel inputs,
    StepsMeet (shellStep fmtValue) Fits (shellStart kernel) inputs →
    LinesFit (inputOf (run (shellStep fmtValue) (shellStart kernel) inputs).log) →
    NoListen (inputOf (run (shellStep fmtValue) (shellStart kernel) inputs).log) →
      Kept (run (shellStep fmtValue) (shellStart kernel) inputs) := by
  intro h
  have hinput : inputOf (run (shellStep fun _ => []) idleShell twoCommands).log =
      ascii "s.ls\nhelp\n" := by
    decide +kernel
  have hlines : commandLines (ascii "s.ls\nhelp\n") = [ascii "s.ls", ascii "help"] := by
    decide +kernel
  have hlisten : NoListen (inputOf (run (shellStep fun _ => []) idleShell twoCommands).log) := by
    intro line hl pay
    rw [hinput, hlines] at hl
    obtain rfl | hl := List.mem_cons.1 hl
    · have hdot : shellStrchr (ascii "s.ls") 46 = some (ascii "s", ascii "ls") := by decide
      have hblank : shellStrchr (ascii "ls") 32 = none := by decide
      simp [command, hdot, hblank, verbAction, storageAction]
    · obtain rfl := List.mem_singleton.1 hl
      have hdot : shellStrchr (ascii "help") 46 = none := by decide
      simp [command, hdot]
  have hkept := h (fun _ => []) (kernelOn blankVolume) twoCommands (by decide +kernel)
    (by decide +kernel) hlisten
  exact absurd hkept.order (by decide +kernel)

end Shell
end AiOsExchange
