/-
# The shell's loop

`shell_main` of `modules/shell_gui/main.c`, one system call a step.

| place in the source | `Control` |
| --- | --- |
| `sys_hw_drain()` at the top of the loop | `drain` |
| `ipc_receive(&msg)`, and the line editor behind it | `receive` |
| `sys_ipc_send(&req)` | `send` |
| `while (waiting) ipc_receive(&resp)`, eight such loops | `waiting` |
| `sys_hw_drain()` after a reply | `drained` |
| `sys_uart_recv()` in the loop of `trade.listen` | `listen` |

The loop of `trade.listen` sends and waits as the commands do, but goes back to `listen` and drains
nothing; `listening` tells the two apart.  What the hardware gives to a drain, and what is on the
stacks, comes with the step (`Input`).  The screen and the flushes of the GPU are left out.  `log`
keeps what happened.
-/

import AiOsExchange.Lib.Run
import AiOsExchange.Shell.Messages

namespace AiOsExchange
namespace Shell

open CMemory Computations Autarky Kernel Runs

/-! ### Draining the hardware -/

/-- `SYS_MOD_UART`. -/
def sysModUart : ℕ := 2

/-- What `virtio_input_poll` and `uart_poll_rx` return to one drain until they return 0, and what
was in `hw_msg`. -/
structure Batch where
  keyboard : List UInt8
  uart : List UInt8
  pay : Buf
  nonzero : ∀ c ∈ keyboard ++ uart, c ≠ 0

/-- `'\r'` of the UART becomes `'\n'`. -/
def uartChar (c : UInt8) : UInt8 := if c = 13 then 10 else c

/-- The message of a key press. -/
def keyMessage (sender : ℕ) (pay : Buf) (c : UInt8) : OsMessage where
  senderId := sender
  targetId := sysModGuiShell
  type := .keyPress
  length := 1
  payload := put pay 0 [c]

/-- The messages of a drain. -/
def Batch.messages (b : Batch) : List OsMessage :=
  b.keyboard.map (keyMessage sysModKernel b.pay) ++
    b.uart.map fun c => keyMessage sysModUart b.pay (uartChar c)

/-- The characters in them. -/
def Batch.chars (b : Batch) : List UInt8 := b.keyboard ++ b.uart.map uartChar

/-- `drain_hardware_queues`. -/
def drainHardwareQueues (b : Batch) (q : Mailbox) : Mailbox :=
  b.messages.foldl (fun q msg => ipcKernelSend msg q) q

section
variable {q : Mailbox}

/-- A drain adds messages of its own and no others. -/
theorem mem_drained {ms : List OsMessage} (h : q.Valid) :
    (ms.foldl (fun q msg => ipcKernelSend msg q) q).Valid ∧
      ∀ m ∈ (ms.foldl (fun q msg => ipcKernelSend msg q) q).messages, m ∈ q.messages ∨ m ∈ ms := by
  induction ms generalizing q with
  | nil => exact ⟨h, fun m hm => .inl hm⟩
  | cons msg ms ih =>
      obtain ⟨hvalid, hmem⟩ := ih (valid_ipcKernelSend msg h)
      refine ⟨hvalid, fun m hm => ?_⟩
      rcases hmem m hm with hq | hms
      · rw [messages_ipcKernelSend msg h] at hq
        split_ifs at hq
        · rcases List.mem_append.1 hq with hq | hmsg
          · exact .inl hq
          · exact .inr (List.mem_cons.2 (.inl (List.mem_singleton.1 hmsg)))
        · exact .inl hq
      · exact .inr (List.mem_cons_of_mem _ hms)

/-- Messages that fit are all enqueued. -/
theorem drained_of_fits {ms : List OsMessage} (h : q.Valid)
    (hfits : q.messages.length + ms.length ≤ 255) :
    (ms.foldl (fun q msg => ipcKernelSend msg q) q).messages = q.messages ++ ms := by
  induction ms generalizing q with
  | nil => exact (List.append_nil _).symm
  | cons msg ms ih =>
      rw [List.length_cons] at hfits
      have hsend := messages_ipcKernelSend msg h
      rw [if_pos (by omega)] at hsend
      have hrest := ih (valid_ipcKernelSend msg h) (by rw [hsend, List.length_append]; simp; omega)
      rw [List.foldl_cons, hrest, hsend, List.append_assoc, List.singleton_append]

end

/-! ### Commands -/

/-- `shell_strchr`: what is before the first `c` and what is behind it. -/
def shellStrchr (s : List UInt8) (c : UInt8) : Option (List UInt8 × List UInt8) :=
  if c ∈ s then some (s.takeWhile (· ≠ c), (s.dropWhile (· ≠ c)).drop 1) else none

/-- What a command does: it sends a request and waits for the reply, it listens for trades, or it
prints. -/
inductive Action
  | request (req : OsMessage)
  | listen
  | print

/-- The verbs of `storage` and `s`. -/
def storageAction (pay : Buf) (verb : List UInt8) (args : Option (List UInt8)) : Action :=
  if verb = ascii "list" ∨ verb = ascii "ls" then .request (requestOf .fsListReq pay 0 [])
  else
    match args with
    | none => .print
    | some args =>
        if verb = ascii "read" then .request (readRequest pay args)
        else if verb = ascii "write" then
          match splitArgs args with
          | some (filename, data) => .request (writeRequest pay filename data)
          | none => .print
        else .print

/-- The verbs of the other namespaces. -/
def verbAction (pay : Buf) (ns verb : List UInt8) (args : Option (List UInt8)) : Action :=
  if ns = ascii "storage" ∨ ns = ascii "s" then storageAction pay verb args
  else if ns = ascii "agent" then
    if verb = ascii "why" then .request (requestOf .watcherDumpReq pay 0 []) else .print
  else if ns = ascii "atk" then
    match args with
    | some args => if verb = ascii "run" then .request (execRequest pay args) else .print
    | none => .print
  else if ns = ascii "ledger" then
    if verb = ascii "sync" then .request (requestOf .watcherSyncReq pay 0 []) else .print
  else if ns = ascii "trade" then
    if verb = ascii "listen" then .listen else .print
  else .print

/-- The command in `cmd_buffer`; without a dot it is `clear`, `help` or unknown. -/
def command (pay : Buf) (line : List UInt8) : Action :=
  match shellStrchr line 46 with
  | none => .print
  | some (ns, rest) =>
      match shellStrchr rest 32 with
      | some (verb, args) => verbAction pay ns verb (some args)
      | none => verbAction pay ns rest none

/-! ### The loop -/

/-- Where the shell is. -/
inductive Control
  | drain
  | receive
  | send (req : OsMessage) (listening : Bool)
  | waiting (type : IpcMsg) (listening : Bool)
  | drained
  | listen (tradePayload : List UInt8) (timeoutCounter : ℕ)

/-- The next step drains the hardware. -/
def Control.drains : Control → Bool
  | .drain => true
  | .drained => true
  | _ => false

/-- The next step sends a request. -/
def Control.sends : Control → Bool
  | .send _ _ => true
  | _ => false

/-- What happened. -/
inductive Event
  /-- The hardware gave a character to a drain. -/
  | input (c : UInt8)
  /-- The line editor acted on a character. -/
  | typed (c : UInt8)
  /-- A command line was executed. -/
  | executed (line : List UInt8)
  /-- A waiting loop ended with this reply. -/
  | replied (reply : OsMessage)

/-- The shell and the kernel under it. -/
structure ShellState where
  kernel : KernelState
  /-- `cmd_buffer` up to `cmd_idx`. -/
  cmdBuffer : List UInt8
  control : Control
  log : List Event

/-- What a step takes from outside. -/
structure Input where
  batch : Batch
  uart : UInt8
  msg : OsMessage
  pay : Buf
  loc : Locals
  fuel : ℕ

/-- `CMD_MAX_LEN`. -/
def cmdMaxLen : ℕ := 256

/-- `TIMEOUT_MAX`. -/
def timeoutMax : ℕ := 5000000

/-- The type of the reply that the loop behind a request waits for. -/
def respType : IpcMsg → IpcMsg
  | .fsListReq => .fsListResp
  | .fsReadReq => .fsReadResp
  | .fsWriteReq => .fsWriteResp
  | .atkExecReq => .atkExecResp
  | .watcherDumpReq => .watcherDumpResp
  | .watcherSyncReq => .watcherSyncResp
  | type => type

/-- The end of a line, `cmd_buffer[cmd_idx] = '\0'`: the command up to its first NUL. -/
def enterLine (pay : Buf) (s : ShellState) : ShellState :=
  if s.cmdBuffer = [] then { s with control := .drain }
  else
    let line := s.cmdBuffer.takeWhile (· ≠ 0)
    { s with
      cmdBuffer := []
      log := s.log ++ [.executed line]
      control := match command pay line with
        | .request req => .send req false
        | .listen => .listen [] 0
        | .print => .drain }

/-- The line editor. -/
def typeChar (pay : Buf) (c : UInt8) (s : ShellState) : ShellState :=
  let s := { s with log := s.log ++ [.typed c] }
  if c = 10 ∨ c = 13 then enterLine pay s
  else if c = 8 then { s with cmdBuffer := s.cmdBuffer.dropLast, control := .drain }
  else if s.cmdBuffer.length < cmdMaxLen - 1 then
    { s with cmdBuffer := s.cmdBuffer ++ [c], control := .drain }
  else { s with control := .drain }

/-- A drain, with its characters in the log. -/
def drainStep (b : Batch) (s : ShellState) : ShellState :=
  { s with
    kernel := { s.kernel with ipc := drainHardwareQueues b s.kernel.ipc }
    log := s.log ++ b.chars.map .input }

/-- The end of a captured line: a payload that begins with a brace is sent. -/
def captureLine (pay : Buf) (tradePayload : List UInt8) : Control :=
  if tradePayload.head? = some 123 then .send (tradeRequest pay tradePayload) true
  else .listen [] 0

/-- A character of the UART while trades are captured; 0 is none. -/
def captureChar (pay : Buf) (c : UInt8) (tradePayload : List UInt8) (timeoutCounter : ℕ) : Control :=
  if c = 0 then
    if timeoutCounter + 1 > timeoutMax then .listen [] 0
    else .listen tradePayload (timeoutCounter + 1)
  else if c = 10 ∨ c = 13 then captureLine pay tradePayload
  else if tradePayload.length + 1 < 255 then .listen (tradePayload ++ [c]) 0
  else captureLine pay (tradePayload ++ [c])

/-- One system call of the shell, and what it does until the next.  A request whose handler does not
come back leaves the shell where it is. -/
def shellStep (fmtValue : Value → List Char) (s : ShellState) (i : Input) : ShellState :=
  match s.control with
  | .drain => { drainStep i.batch s with control := .receive }
  | .drained => { drainStep i.batch s with control := .drain }
  | .receive =>
      let (msg, ipc) := ipcReceive i.msg s.kernel.ipc
      let s := { s with kernel := { s.kernel with ipc := ipc } }
      if msg.type = .keyPress ∧ 0 < msg.length then typeChar i.pay (msg.payload 0) s
      else { s with control := .drain }
  | .send req listening =>
      match sysIpcSend fmtValue i.fuel i.loc req s.kernel with
      | (.ok (), kernel) => { s with kernel := kernel, control := .waiting (respType req.type) listening }
      | _ => s
  | .waiting type listening =>
      let (resp, ipc) := ipcReceive i.msg s.kernel.ipc
      let s := { s with kernel := { s.kernel with ipc := ipc } }
      if resp.type = type then
        { s with
          log := s.log ++ [.replied resp]
          control := if listening then .listen [] 0 else .drained }
      else s
  | .listen tradePayload timeoutCounter =>
      { s with control := captureChar i.pay i.uart tradePayload timeoutCounter }

/-- The shell as it is started: `ipc_head` and `ipc_tail` are still 0. -/
def shellStart (kernel : KernelState) : ShellState where
  kernel := { kernel with ipc := ⟨kernel.ipc.queue, 0, 0⟩ }
  cmdBuffer := []
  control := .drain
  log := []

end Shell
end AiOsExchange
