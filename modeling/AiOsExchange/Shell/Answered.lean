/-
# Every request is answered

`ipc_kernel_send` drops what finds the mailbox full, and the loops that wait for a reply have no
timeout.  That none of them waits forever rests on how full the mailbox can be where a request is
sent: a command line is only executed by a turn that has just received a key press, and nothing
drains between that and the request, so at most 254 messages are left (`MailboxSound`).  All of them are
key presses, and nothing is sent while the shell waits; so the loop receives them one by one and
then its reply, and leaves the mailbox empty.
-/

import AiOsExchange.Shell.Main

namespace AiOsExchange
namespace Shell

open CMemory Computations Autarky Fat32 Kernel Rings Runs

/-! ### Requests and replies -/

/-- The shell's requests. -/
def IsRequest (req : OsMessage) : Prop :=
  req.targetId = sysModKernel ∧ req.type ∈ [IpcMsg.fsListReq, .fsReadReq, .fsWriteReq, .atkExecReq,
    .watcherDumpReq, .watcherSyncReq]

/-- No reply is a key press. -/
theorem respType_ne_keyPress {req : OsMessage} (h : IsRequest req) : respType req.type ≠ .keyPress := by
  obtain ⟨-, h⟩ := h
  simp only [List.mem_cons, List.not_mem_nil, or_false] at h
  rcases h with h | h | h | h | h | h <;> rw [h] <;> simp [respType]

/-- A command sends nothing but requests. -/
theorem isRequest_of_command {pay : Buf} {line : List UInt8} {req : OsMessage}
    (h : command pay line = .request req) : IsRequest req := by
  have hstorage {verb : List UInt8} {args : Option (List UInt8)}
      (h : storageAction pay verb args = .request req) : IsRequest req := by
    unfold storageAction at h
    cases args with
    | none =>
        split_ifs at h
        cases h
        exact ⟨rfl, by simp [requestOf]⟩
    | some args =>
        simp only at h
        split_ifs at h
        · cases h
          exact ⟨rfl, by simp [requestOf]⟩
        · cases h
          exact ⟨rfl, by simp [readRequest, nameRequest, requestOf]⟩
        · split at h
          · cases h
            exact ⟨rfl, by simp [writeRequest, fileRequest, requestOf]⟩
          · cases h
  have hverb {ns verb : List UInt8} {args : Option (List UInt8)}
      (h : verbAction pay ns verb args = .request req) : IsRequest req := by
    unfold verbAction at h
    cases args with
    | none =>
        simp only at h
        split_ifs at h
        · exact hstorage h
        all_goals
          cases h
          exact ⟨rfl, by simp [requestOf]⟩
    | some args =>
        simp only at h
        split_ifs at h
        · exact hstorage h
        · cases h
          exact ⟨rfl, by simp [requestOf]⟩
        · cases h
          exact ⟨rfl, by simp [execRequest, nameRequest, requestOf]⟩
        · cases h
          exact ⟨rfl, by simp [requestOf]⟩
  unfold command at h
  split at h
  · cases h
  · split at h
    · exact hverb h
    · exact hverb h

/-- **The kernel's reply to a request** is of the type that is waited for, and the handler leaves
the mailbox alone. -/
theorem handleRequest_reply {fmtValue : Value → List Char} {fuel : ℕ} {loc : Locals}
    {req : OsMessage} {k k' : KernelState} {r : Option OsMessage} (hreq : IsRequest req)
    (h : handleRequest fmtValue fuel loc req k = (.ok r, k')) :
    ∃ reply, r = some reply ∧ reply.type = respType req.type ∧ k'.ipc = k.ipc := by
  obtain ⟨-, hreq⟩ := hreq
  simp only [List.mem_cons, List.not_mem_nil, or_false] at hreq
  rcases hreq with ht | ht | ht | ht | ht | ht
  · rw [handleRequest_list ht] at h
    cases h
    exact ⟨_, rfl, by rw [ht]; rfl, rfl⟩
  · rw [handleRequest_read ht] at h
    cases h
    exact ⟨_, rfl, by rw [ht]; rfl, rfl⟩
  · rw [handleRequest_write ht] at h
    cases h
    exact ⟨_, rfl, by rw [ht]; rfl, rfl⟩
  · rw [handleRequest_exec ht] at h
    obtain ⟨⟨gas, out⟩, k₁, hx, hr⟩ := Comp.bind_eq_ok_iff.1 h
    cases hr
    simp only [onHost, Prod.mk.injEq] at hx
    refine ⟨_, rfl, by rw [ht]; rfl, ?_⟩
    rw [← hx.2]
    rfl
  · rw [handleRequest, ht] at h
    cases h
    exact ⟨_, rfl, by rw [ht]; rfl, rfl⟩
  · rw [handleRequest, ht] at h
    obtain ⟨_, k₁, hx, hr⟩ := Comp.bind_eq_ok_iff.1 h
    cases hr
    refine ⟨_, rfl, by rw [ht]; rfl, ?_⟩
    simp only [syncToDisk] at hx
    split at hx
    · cases hx
      rfl
    · cases hx

/-- A request whose handler comes back leaves its reply to be sent. -/
theorem sysIpcSend_reply {fmtValue : Value → List Char} {fuel : ℕ} {loc : Locals}
    {req : OsMessage} {k k' : KernelState} (hreq : IsRequest req)
    (h : sysIpcSend fmtValue fuel loc req k = (.ok (), k')) :
    ∃ reply, reply.type = respType req.type ∧ k'.ipc = ipcKernelSend reply k.ipc := by
  rw [sysIpcSend, if_pos hreq.1] at h
  obtain ⟨r, k₁, hr, hsend⟩ := Comp.bind_eq_ok_iff.1 h
  obtain ⟨reply, rfl, htype, hipc⟩ := handleRequest_reply hreq hr
  cases hsend
  exact ⟨reply, htype, by rw [← hipc]⟩

/-! ### The mailbox at each place of the loop -/

/-- A key press as the shell takes it. -/
def KeyPress (m : OsMessage) : Prop := m.type = .keyPress ∧ 0 < m.length

/-- What is in the mailbox: key presses, with room for a reply where one is asked for, and with the
reply behind them where it is waited for. -/
def Expected : Control → List OsMessage → Prop
  | .drain, ms => ∀ m ∈ ms, KeyPress m
  | .receive, ms => ∀ m ∈ ms, KeyPress m
  | .drained, ms => ∀ m ∈ ms, KeyPress m
  | .send req _, ms => IsRequest req ∧ ms.length ≤ 254 ∧ ∀ m ∈ ms, KeyPress m
  | .waiting type _, ms => type ≠ .keyPress ∧ ∃ keys reply, ms = keys ++ [reply] ∧
      reply.type = type ∧ ∀ m ∈ keys, KeyPress m
  | .listen _ _, ms => ms.length ≤ 254 ∧ ∀ m ∈ ms, KeyPress m

/-- The mailbox is as it is expected to be. -/
structure MailboxSound (s : ShellState) : Prop where
  valid : s.kernel.ipc.Valid
  expected : Expected s.control s.kernel.ipc.messages

theorem mailboxSound_start (kernel : KernelState) : MailboxSound (shellStart kernel) := by
  have hpos : 0 < ipcQueueSize := by decide
  refine ⟨⟨hpos, hpos⟩, ?_⟩
  intro m hm
  rw [shellStart, Mailbox.messages, between_self] at hm
  exact absurd hm List.not_mem_nil

theorem keyPress_of_mem_batch {b : Batch} {m : OsMessage} (h : m ∈ b.messages) : KeyPress m := by
  rcases List.mem_append.1 h with h | h
  · obtain ⟨c, -, rfl⟩ := List.mem_map.1 h
    exact ⟨rfl, Nat.one_pos⟩
  · obtain ⟨c, -, rfl⟩ := List.mem_map.1 h
    exact ⟨rfl, Nat.one_pos⟩

/-- A drain leaves key presses. -/
theorem keyPress_of_drained {b : Batch} {q : Mailbox} (h : q.Valid)
    (hkeys : ∀ m ∈ q.messages, KeyPress m) :
    (drainHardwareQueues b q).Valid ∧ ∀ m ∈ (drainHardwareQueues b q).messages, KeyPress m := by
  obtain ⟨hvalid, hmem⟩ := @mem_drained q b.messages h
  refine ⟨hvalid, fun m hm => ?_⟩
  rcases hmem m hm with hq | hb
  · exact hkeys m hq
  · exact keyPress_of_mem_batch hb

/-- Where a character of the line editor leads: back to the top, to a request or to the trades. -/
theorem typeChar_control (pay : Buf) (c : UInt8) (s : ShellState) :
    (typeChar pay c s).kernel = s.kernel ∧ ((typeChar pay c s).control = .drain ∨
      (typeChar pay c s).control = .listen [] 0 ∨
        ∃ req, (typeChar pay c s).control = .send req false ∧ IsRequest req) := by
  unfold typeChar
  simp only
  split_ifs
  · unfold enterLine
    simp only
    split_ifs
    · exact ⟨rfl, .inl rfl⟩
    · refine ⟨rfl, ?_⟩
      rcases hc : command pay (s.cmdBuffer.takeWhile (· ≠ 0)) with req | _ | _
      · exact .inr (.inr ⟨req, rfl, isRequest_of_command hc⟩)
      · exact .inr (.inl rfl)
      · exact .inl rfl
  · exact ⟨rfl, .inl rfl⟩
  · exact ⟨rfl, .inl rfl⟩
  · exact ⟨rfl, .inl rfl⟩

/-- Where a captured character leads: to the next, or to a request. -/
theorem captureChar_control (pay : Buf) (c : UInt8) (tradePayload : List UInt8)
    (timeoutCounter : ℕ) :
    (∃ tradePayload' timeoutCounter',
      captureChar pay c tradePayload timeoutCounter = .listen tradePayload' timeoutCounter') ∨
      ∃ req, captureChar pay c tradePayload timeoutCounter = .send req true ∧ IsRequest req := by
  have hline (line : List UInt8) :
      (∃ tradePayload' timeoutCounter', captureLine pay line = .listen tradePayload' timeoutCounter') ∨
        ∃ req, captureLine pay line = .send req true ∧ IsRequest req := by
    unfold captureLine
    split_ifs
    · exact .inr ⟨_, rfl, rfl, by simp [tradeRequest, fileRequest, requestOf]⟩
    · exact .inl ⟨_, _, rfl⟩
  unfold captureChar
  split_ifs
  · exact .inl ⟨_, _, rfl⟩
  · exact .inl ⟨_, _, rfl⟩
  · exact hline _
  · exact .inl ⟨_, _, rfl⟩
  · exact hline _

/-! ### The steps -/

section
variable {fmtValue : Value → List Char} {s : ShellState} {i : Input}

/-- **A request that comes back is waiting for its reply**, the last message of the mailbox. -/
theorem send_spec {req : OsMessage} {listening : Bool} {k' : KernelState} (h : MailboxSound s)
    (hc : s.control = .send req listening)
    (hr : sysIpcSend fmtValue i.fuel i.loc req s.kernel = (.ok (), k')) :
    ∃ reply, reply.type = respType req.type ∧ k'.ipc.Valid ∧
      k'.ipc.messages = s.kernel.ipc.messages ++ [reply] ∧
      shellStep fmtValue s i =
        { s with kernel := k', control := .waiting (respType req.type) listening } := by
  have hexp := h.expected
  rw [hc] at hexp
  obtain ⟨hreq, hlen, -⟩ := hexp
  obtain ⟨reply, htype, hipc⟩ := sysIpcSend_reply hreq hr
  refine ⟨reply, htype, hipc ▸ valid_ipcKernelSend reply h.valid, ?_, ?_⟩
  · rw [hipc, messages_ipcKernelSend reply h.valid, if_pos (by omega)]
  · simp only [shellStep, hc, hr]

/-- A request that does not come back leaves the shell waiting for the kernel. -/
theorem send_stuck {req : OsMessage} {listening : Bool} (hc : s.control = .send req listening)
    (hr : ∀ k', sysIpcSend fmtValue i.fuel i.loc req s.kernel ≠ (.ok (), k')) :
    shellStep fmtValue s i = s := by
  simp only [shellStep, hc]

/-- **A waiting loop passes over a key press.** -/
theorem waiting_key {type : IpcMsg} {listening : Bool} {m : OsMessage} {ms : List OsMessage}
    (hv : s.kernel.ipc.Valid) (hc : s.control = .waiting type listening)
    (hms : s.kernel.ipc.messages = m :: ms) (htype : m.type ≠ type) :
    ∃ ipc, ipc.Valid ∧ ipc.messages = ms ∧
      shellStep fmtValue s i = { s with kernel := { s.kernel with ipc := ipc } } := by
  obtain ⟨ipc, hrecv, hvalid, hrest⟩ := ipcReceive_cons i.msg hv hms
  refine ⟨ipc, hvalid, hrest, ?_⟩
  simp only [shellStep, hc, hrecv, if_neg htype]

/-- **A waiting loop ends with its reply.** -/
theorem waiting_reply {type : IpcMsg} {listening : Bool} {reply : OsMessage}
    {ms : List OsMessage} (hv : s.kernel.ipc.Valid) (hc : s.control = .waiting type listening)
    (hms : s.kernel.ipc.messages = reply :: ms) (htype : reply.type = type) :
    ∃ ipc, ipc.Valid ∧ ipc.messages = ms ∧ shellStep fmtValue s i =
      { s with
        kernel := { s.kernel with ipc := ipc }
        log := s.log ++ [.replied reply]
        control := if listening then .listen [] 0 else .drained } := by
  obtain ⟨ipc, hrecv, hvalid, hrest⟩ := ipcReceive_cons i.msg hv hms
  refine ⟨ipc, hvalid, hrest, ?_⟩
  simp only [shellStep, hc, hrecv, if_pos htype]

/-- **A key press is acted on at the top of the loop.** -/
theorem receive_key {m : OsMessage} {ms : List OsMessage} (hv : s.kernel.ipc.Valid)
    (hc : s.control = .receive) (hms : s.kernel.ipc.messages = m :: ms) (hkey : KeyPress m) :
    ∃ ipc, ipc.Valid ∧ ipc.messages = ms ∧ shellStep fmtValue s i =
      typeChar i.pay (m.payload 0) { s with kernel := { s.kernel with ipc := ipc } } := by
  obtain ⟨ipc, hrecv, hvalid, hrest⟩ := ipcReceive_cons i.msg hv hms
  refine ⟨ipc, hvalid, hrest, ?_⟩
  simp only [shellStep, hc, hrecv, if_pos (show m.type = .keyPress ∧ 0 < m.length from hkey)]

/-- Nothing to receive. -/
theorem receive_nothing (hv : s.kernel.ipc.Valid) (hc : s.control = .receive)
    (hms : s.kernel.ipc.messages = []) :
    shellStep fmtValue s i = { s with control := .drain } := by
  simp only [shellStep, hc, ipcReceive_nil i.msg hv hms, reduceCtorEq, false_and, if_false]

/-- **Every step keeps the mailbox as expected.** -/
theorem mailboxSound_step (h : MailboxSound s) :
    MailboxSound (shellStep fmtValue s i) := by
  have hv := h.valid
  have hexp := h.expected
  rcases hc : s.control with _ | _ | ⟨req, listening⟩ | ⟨type, listening⟩ | _ | ⟨payload, timeout⟩
  · -- the drain at the top
    rw [hc] at hexp
    obtain ⟨hvalid, hkeys⟩ := @keyPress_of_drained i.batch _ hv hexp
    simp only [shellStep, hc]
    exact ⟨hvalid, hkeys⟩
  · -- a key press is taken out, which makes room
    rw [hc] at hexp
    cases hms : s.kernel.ipc.messages with
    | nil =>
        rw [receive_nothing hv hc hms]
        exact ⟨hv, hexp⟩
    | cons m ms =>
        rw [hms] at hexp
        have hlen := s.kernel.ipc.messages_length_le
        rw [hms, List.length_cons] at hlen
        have hkeys : ∀ m ∈ ms, KeyPress m := fun m hm => hexp m (List.mem_cons_of_mem _ hm)
        obtain ⟨ipc, hvalid, hrest, hstep⟩ :=
          @receive_key fmtValue s i m ms hv hc hms (hexp m List.mem_cons_self)
        obtain ⟨hkernel, hcontrol⟩ := typeChar_control i.pay (m.payload 0)
          { s with kernel := { s.kernel with ipc := ipc } }
        rw [hstep]
        refine ⟨by rw [hkernel]; exact hvalid, ?_⟩
        rw [hkernel]
        simp only [hrest]
        obtain hd | hl | ⟨req, hs, hreq⟩ := hcontrol
        · rw [hd]
          exact hkeys
        · rw [hl]
          exact ⟨by omega, hkeys⟩
        · rw [hs]
          exact ⟨hreq, by omega, hkeys⟩
  · -- the reply goes behind the key presses
    rw [hc] at hexp
    by_cases hr : ∃ k', sysIpcSend fmtValue i.fuel i.loc req s.kernel = (.ok (), k')
    · obtain ⟨k', hr⟩ := hr
      obtain ⟨reply, htype, hvalid, hms, hstep⟩ := send_spec h hc hr
      rw [hstep]
      exact ⟨hvalid, respType_ne_keyPress hexp.1, _, reply, hms, htype, hexp.2.2⟩
    · push Not at hr
      rw [send_stuck hc hr]
      exact h
  · -- a key press is passed over, or the reply taken, which is the last
    rw [hc] at hexp
    obtain ⟨hne, keys, reply, hms, htype, hkeys⟩ := hexp
    cases keys with
    | nil =>
        obtain ⟨ipc, hvalid, hrest, hstep⟩ := @waiting_reply fmtValue s i _ _ _ _ hv hc hms htype
        rw [hstep]
        have hnone : ∀ m ∈ ipc.messages, KeyPress m := by
          rw [hrest]
          exact fun m hm => absurd hm List.not_mem_nil
        refine ⟨hvalid, ?_⟩
        cases listening with
        | true => exact ⟨by rw [hrest]; exact Nat.zero_le _, hnone⟩
        | false => exact hnone
    | cons m keys =>
        have hkey := hkeys m List.mem_cons_self
        obtain ⟨ipc, hvalid, hrest, hstep⟩ := @waiting_key fmtValue s i _ _ _ _ hv hc hms
          (fun heq => hne (heq.symm.trans hkey.1))
        rw [hstep]
        refine ⟨hvalid, ?_⟩
        rw [hc]
        exact ⟨hne, keys, reply, hrest, htype, fun m hm => hkeys m (List.mem_cons_of_mem _ hm)⟩
  · -- the drain after a reply
    rw [hc] at hexp
    obtain ⟨hvalid, hkeys⟩ := @keyPress_of_drained i.batch _ hv hexp
    simp only [shellStep, hc]
    exact ⟨hvalid, hkeys⟩
  · -- trades are captured without the mailbox
    rw [hc] at hexp
    simp only [shellStep, hc]
    refine ⟨hv, ?_⟩
    obtain ⟨payload', timeout', hl⟩ | ⟨req, hs, hreq⟩ := captureChar_control i.pay i.uart payload timeout
    · simp only [hl]
      exact hexp
    · simp only [hs]
      exact ⟨hreq, hexp⟩

/-- **A waiting loop takes one receive more than there are other messages before its reply.** -/
theorem waiting_ends {type : IpcMsg} {listening : Bool} {keys : List OsMessage} {reply : OsMessage}
    (hv : s.kernel.ipc.Valid) (hc : s.control = .waiting type listening)
    (hms : s.kernel.ipc.messages = keys ++ [reply]) (hkeys : ∀ m ∈ keys, m.type ≠ type)
    (htype : reply.type = type) {inputs : List Input} (hlen : inputs.length = keys.length + 1) :
    (run (shellStep fmtValue) s inputs).log = s.log ++ [.replied reply] ∧
      (run (shellStep fmtValue) s inputs).control =
        (if listening then .listen [] 0 else .drained) ∧
      ∀ n < inputs.length,
        (run (shellStep fmtValue) s (inputs.take n)).control = .waiting type listening := by
  induction keys generalizing s inputs with
  | nil =>
      obtain ⟨i, rfl⟩ := List.length_eq_one_iff.1 hlen
      obtain ⟨ipc, -, -, hstep⟩ := @waiting_reply fmtValue s i _ _ _ _ hv hc hms htype
      rw [run_cons, run_nil, hstep]
      refine ⟨rfl, rfl, fun n hn => ?_⟩
      obtain rfl : n = 0 := by simpa using hn
      exact hc
  | cons m keys ih =>
      obtain ⟨i, inputs, rfl⟩ := List.exists_cons_of_length_eq_add_one hlen
      obtain ⟨ipc, hvalid, hrest, hstep⟩ := @waiting_key fmtValue s i _ _ _ _ hv hc hms
        (hkeys m List.mem_cons_self)
      rw [run_cons, hstep]
      have hlen' : inputs.length = keys.length + 1 := by simpa using hlen
      obtain ⟨hlog, hcontrol, hwait⟩ := ih (s := { s with kernel := { s.kernel with ipc := ipc } })
        hvalid hc hrest (fun m hm => hkeys m (List.mem_cons_of_mem _ hm)) hlen'
      refine ⟨hlog, hcontrol, fun n hn => ?_⟩
      cases n with
      | zero => exact hc
      | succ n =>
          rw [List.take_succ_cons, run_cons, hstep]
          exact hwait n (by simpa using hn)

end

/-! ### Runs -/

/-- Where a request is about to be sent, there is room for the reply, no message of its type is
there already, and once the handler has come back its reply is enqueued, and the loop that waits
ends with it after at most 255 receives. -/
def Answered (fmtValue : Value → List Char) (s : ShellState) : Prop :=
  ∀ req listening, s.control = .send req listening →
    s.kernel.ipc.messages.length ≤ 254 ∧
    (∀ m ∈ s.kernel.ipc.messages, m.type ≠ respType req.type) ∧
    ∀ i kernel reply, handleRequest fmtValue i.fuel i.loc req s.kernel = (.ok reply, kernel) →
      ∃ resp, reply = some resp ∧ resp.type = respType req.type ∧
        (shellStep fmtValue s i).kernel.ipc.messages = s.kernel.ipc.messages ++ [resp] ∧
        ∃ n ≤ 255, ∀ inputs, inputs.length = n →
          let s' := run (shellStep fmtValue) (shellStep fmtValue s i)
          (s' inputs).log = s.log ++ [.replied resp] ∧
            (s' inputs).control = (if listening then .listen [] 0 else .drained) ∧
            ∀ k < n, (s' (inputs.take k)).control = .waiting (respType req.type) listening

theorem answered_of_mailboxSound {fmtValue : Value → List Char} {s : ShellState}
    (h : MailboxSound s) : Answered fmtValue s := by
  intro req listening hc
  have hexp := h.expected
  rw [hc] at hexp
  obtain ⟨hreq, hlen, hkeys⟩ := hexp
  have hother : ∀ m ∈ s.kernel.ipc.messages, m.type ≠ respType req.type := by
    intro m hm heq
    exact respType_ne_keyPress hreq (heq.symm.trans (hkeys m hm).1)
  refine ⟨hlen, hother, fun i kernel reply hr => ?_⟩
  obtain ⟨resp, rfl, htype, hipc⟩ := handleRequest_reply hreq hr
  have hsend : sysIpcSend fmtValue i.fuel i.loc req s.kernel =
      (.ok (), { kernel with ipc := ipcKernelSend resp kernel.ipc }) := by
    rw [sysIpcSend, if_pos hreq.1, Comp.bind_of_ok hr]
    rfl
  have hvalid : (ipcKernelSend resp kernel.ipc).Valid := hipc ▸ valid_ipcKernelSend resp h.valid
  have hms : (ipcKernelSend resp kernel.ipc).messages = s.kernel.ipc.messages ++ [resp] := by
    rw [hipc, messages_ipcKernelSend resp h.valid, if_pos (by omega)]
  have hstep : shellStep fmtValue s i = { s with
      kernel := { kernel with ipc := ipcKernelSend resp kernel.ipc }
      control := .waiting (respType req.type) listening } := by
    simp only [shellStep, hc, hsend]
  refine ⟨resp, rfl, htype, by rw [hstep]; exact hms, s.kernel.ipc.messages.length + 1, by omega,
    fun inputs hinputs => ?_⟩
  rw [hstep]
  have hends := @waiting_ends fmtValue { s with
      kernel := { kernel with ipc := ipcKernelSend resp kernel.ipc }
      control := .waiting (respType req.type) listening } _ listening _ resp hvalid rfl hms hother
    htype inputs hinputs
  rw [hinputs] at hends
  exact hends

/-- **Every request of the shell is answered**, in every run from its start, whatever is typed and
whatever comes over the UART. -/
theorem every_request_answered (fmtValue : Value → List Char) (kernel : KernelState)
    (inputs : List Input) :
    Answered fmtValue (run (shellStep fmtValue) (shellStart kernel) inputs) :=
  answered_of_mailboxSound
    (run_keeps (fun _ _ h => mailboxSound_step h) (mailboxSound_start kernel) inputs)

/-- A step to which the UART brings these characters. -/
def bringing (cs : List UInt8) (nonzero : ∀ c ∈ cs, c ≠ 0) : Input where
  batch := ⟨[], cs, fun _ => 0, nonzero⟩
  uart := 0
  msg := ⟨0, 0, .none, 0, fun _ => 0⟩
  pay := fun _ => 0
  loc := ⟨fun _ => 0, fun _ => 0, fun _ => 0, fun _ => 0⟩
  fuel := 0

/-- A step to which the hardware brings nothing. -/
def quiet : Input := bringing [] fun _ h => absurd h List.not_mem_nil

theorem list_nonzero : ∀ c ∈ ascii "s.list\n", c ≠ 0 := forall_mem_of_all (by decide)

/-- `s.list` and a newline come to one drain, and nothing after that. -/
def listingTyped : List Input := bringing (ascii "s.list\n") list_nonzero :: List.replicate 13 quiet

/-- `s.list` is typed: after its last character the shell is about to send the request, and the wait
behind it ends with the kernel's list. -/
theorem listing_answered :
    let s := run (shellStep fun _ => []) (shellStart (kernelOn blankVolume)) listingTyped
    s.control = .send (requestOf .fsListReq (fun _ => 0) 0 []) false ∧
      ∀ i, ∃ resp, resp.type = .fsListResp ∧ ∃ n ≤ 255, ∀ inputs, inputs.length = n →
        (run (shellStep fun _ => []) (shellStep (fun _ => []) s i) inputs).log =
          s.log ++ [.replied resp] := by
  intro s
  have hsend : s.control = .send (requestOf .fsListReq (fun _ => 0) 0 []) false := rfl
  obtain ⟨-, -, hanswered⟩ := every_request_answered (fun _ => []) (kernelOn blankVolume)
    listingTyped _ _ hsend
  refine ⟨hsend, fun i => ?_⟩
  obtain ⟨resp, -, htype, -, n, hn, hends⟩ := hanswered i _ _ (handleRequest_list rfl)
  exact ⟨resp, htype, n, hn, fun inputs hlen => (hends inputs hlen).1⟩

end Shell
end AiOsExchange
