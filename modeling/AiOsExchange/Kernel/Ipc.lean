/-
# Messages and the mailbox

`include/os_ipc.h` and the queue of `kernel/syscall.c`.  A message carries up to 256 bytes; the
mailbox is a ring of 256 slots, one of which stays empty, and a message that finds it full is
dropped.  Seen as the list of its messages it is a queue of at most 255 (`messages_ipcKernelSend`,
`ipcReceive_cons`).
-/

import AiOsExchange.Lib.Buffer
import AiOsExchange.Lib.Ring
import Mathlib.Logic.Function.Basic

namespace AiOsExchange
namespace Kernel

open CMemory Rings

/-- The `IPC_MSG_` constants. -/
inductive IpcMsg
  | none | keyPress | fsListReq | fsListResp | fsReadReq | fsReadResp | fsWriteReq | fsWriteResp
  | atkExecReq | atkExecResp | watcherDumpReq | watcherDumpResp | watcherSyncReq | watcherSyncResp
  | other (code : ℕ)
  deriving DecidableEq

/-- `SYS_MOD_KERNEL`. -/
def sysModKernel : ℕ := 1

/-- `SYS_MOD_GUI_SHELL`. -/
def sysModGuiShell : ℕ := 3

/-- `os_message_t`; from byte 256 on the payload shows the memory behind the message. -/
structure OsMessage where
  senderId : ℕ
  targetId : ℕ
  type : IpcMsg
  length : ℕ
  payload : Buf

/-- What the receiver of a message prints: its payload up to the NUL. -/
def OsMessage.text (m : OsMessage) : List UInt8 := CMemory.text m.payload 256

/-- `IPC_QUEUE_SIZE`. -/
def ipcQueueSize : ℕ := 256

/-- `ipc_queue`, `ipc_head` and `ipc_tail`. -/
structure Mailbox where
  queue : ℕ → OsMessage
  head : ℕ
  tail : ℕ

/-- `ipc_kernel_send`. -/
def ipcKernelSend (msg : OsMessage) (q : Mailbox) : Mailbox :=
  let nextTail := (q.tail + 1) % ipcQueueSize
  if nextTail ≠ q.head then
    { q with queue := Function.update q.queue q.tail msg, tail := nextTail }
  else q

/-- `SYS_IPC_RECV`, with the message the caller's buffer then holds. -/
def ipcReceive (msg : OsMessage) (q : Mailbox) : OsMessage × Mailbox :=
  if q.head ≠ q.tail then (q.queue q.head, { q with head := (q.head + 1) % ipcQueueSize })
  else ({ msg with type := .none, length := 0 }, q)

/-- The copy loop of the kernel's replies, and the length it counts. -/
def withText (msg : OsMessage) (src : Buf) : OsMessage :=
  { msg with payload := copyString src 255 msg.payload, length := (text src 255).length + 1 }

/-- A reply shows the string it was copied from. -/
@[simp] theorem withText_text (msg : OsMessage) (src : Buf) :
    (withText msg src).text = text src 255 := by
  have h := text_length_le src 255
  exact text_put (nul_not_mem_text src 255) (by omega)

/-! ### The mailbox as a queue -/

namespace Mailbox

/-- The indices are those of slots. -/
structure Valid (q : Mailbox) : Prop where
  head : q.head < ipcQueueSize
  tail : q.tail < ipcQueueSize

/-- The messages, the oldest first. -/
def messages (q : Mailbox) : List OsMessage := between ipcQueueSize ipcQueueSize q.queue q.head q.tail

variable {q : Mailbox}

theorem messages_length_le (q : Mailbox) : q.messages.length ≤ 255 := by
  have hlt : ahead ipcQueueSize q.tail q.head < ipcQueueSize := Nat.mod_lt _ (by decide)
  rw [messages, length_between]
  exact Nat.le_of_lt_succ hlt

/-- No more messages fit where the next tail is the head. -/
theorem next_ne_head_iff (h : q.Valid) :
    (q.tail + 1) % ipcQueueSize ≠ q.head ↔ q.messages.length < 255 := by
  have hh := h.head
  have ht := h.tail
  rw [messages, length_between, ahead_eq ht hh, next_eq ht]
  rw [ipcQueueSize] at hh ht ⊢
  split_ifs <;> omega

theorem messages_eq_nil_iff (h : q.Valid) : q.messages = [] ↔ q.head = q.tail := by
  have hh := h.head
  have ht := h.tail
  rw [← List.length_eq_zero_iff, messages, length_between, ahead_eq ht hh]
  split_ifs <;> omega

end Mailbox

section
variable {q : Mailbox}

/-- **A message is enqueued** where fewer than 255 are waiting, and dropped elsewhere. -/
theorem messages_ipcKernelSend (msg : OsMessage) (h : q.Valid) :
    (ipcKernelSend msg q).messages =
      if q.messages.length < 255 then q.messages ++ [msg] else q.messages := by
  have hnext := Mailbox.next_ne_head_iff h
  simp only [ipcKernelSend, hnext]
  split_ifs with hlt
  · exact between_push msg h.tail h.head (hnext.2 hlt)
  · rfl

theorem valid_ipcKernelSend (msg : OsMessage) (h : q.Valid) : (ipcKernelSend msg q).Valid := by
  simp only [ipcKernelSend]
  split_ifs
  · exact ⟨h.head, Nat.mod_lt _ (by decide)⟩
  · exact h

/-- Nothing is received from an empty mailbox. -/
theorem ipcReceive_nil (msg : OsMessage) (h : q.Valid) (hnil : q.messages = []) :
    ipcReceive msg q = ({ msg with type := .none, length := 0 }, q) := by
  rw [ipcReceive, if_neg]
  exact fun hne => hne ((Mailbox.messages_eq_nil_iff h).1 hnil)

/-- **The oldest message is received.** -/
theorem ipcReceive_cons {m : OsMessage} {ms : List OsMessage} (msg : OsMessage) (h : q.Valid)
    (hcons : q.messages = m :: ms) :
    ∃ q', ipcReceive msg q = (m, q') ∧ q'.Valid ∧ q'.messages = ms := by
  have hne : q.head ≠ q.tail := by
    intro heq
    rw [(Mailbox.messages_eq_nil_iff h).2 heq] at hcons
    cases hcons
  have hpop := @between_pop _ _ q.queue _ _ h.tail h.head hne
  rw [← Mailbox.messages, hcons] at hpop
  obtain ⟨rfl, rfl⟩ := List.cons.inj hpop
  refine ⟨{ q with head := (q.head + 1) % ipcQueueSize }, ?_, ⟨Nat.mod_lt _ (by decide), h.tail⟩, rfl⟩
  rw [ipcReceive, if_pos hne]

end

end Kernel
end AiOsExchange
