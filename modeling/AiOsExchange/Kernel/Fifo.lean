/-
# The mailbox is a bounded queue

`ipc_kernel_send` and `SYS_IPC_RECV` (`kernel/syscall.c`) over any run of the two, the indices
wrapping as often as they may.  What a run has enqueued and dequeued is kept beside the mailbox
(`Traffic`): a message was accepted if the tail moved, and every receive that does not find the
mailbox empty has received what it returns.  Those received are the first of those accepted, in
their order, and the rest is waiting; each receive takes the oldest one off.

The type `IPC_MSG_NONE` tells the caller that nothing was waiting.  `ipc_kernel_send` does not look
at the type of a message, so a message of that type can be waiting, and is received like others.
-/

import AiOsExchange.Kernel.Ipc
import AiOsExchange.Lib.Run

namespace AiOsExchange
namespace Kernel

open Runs

/-- An operation on the mailbox: `ipc_kernel_send(&msg)`, or `SYS_IPC_RECV` into `buffer`. -/
inductive MailboxOp
  | send (msg : OsMessage)
  | receive (buffer : OsMessage)

/-- The mailbox, and what went in and out of it. -/
structure Traffic where
  mailbox : Mailbox
  accepted : List OsMessage
  received : List OsMessage

/-- One operation. -/
def trafficStep (t : Traffic) : MailboxOp → Traffic
  | .send msg =>
      let q := ipcKernelSend msg t.mailbox
      { t with
        mailbox := q
        accepted := if q.tail = t.mailbox.tail then t.accepted else t.accepted ++ [msg] }
  | .receive buffer =>
      let (msg, q) := ipcReceive buffer t.mailbox
      { t with
        mailbox := q
        received :=
          if t.mailbox.head = t.mailbox.tail then t.received else t.received ++ [msg] }

/-- The mailbox as the kernel is loaded: both indices 0, and anything in the slots. -/
def Traffic.start (queue : ℕ → OsMessage) : Traffic := ⟨⟨queue, 0, 0⟩, [], []⟩

/-- The messages accepted and not yet received, the oldest first. -/
def Traffic.waiting (t : Traffic) : List OsMessage := t.accepted.drop t.received.length

/-- What the caller has in its buffer when nothing was waiting. -/
def noMessage (buffer : OsMessage) : OsMessage := { buffer with type := .none, length := 0 }

/-- The messages in the mailbox are those accepted and not yet received. -/
structure Traffic.InOrder (t : Traffic) : Prop where
  valid : t.mailbox.Valid
  order : t.received ++ t.mailbox.messages = t.accepted

section
variable {t : Traffic}

theorem Traffic.InOrder.waiting_eq (h : t.InOrder) : t.waiting = t.mailbox.messages := by
  rw [Traffic.waiting, ← h.order, List.drop_left' rfl]

/-- The tail moves exactly where there is room. -/
theorem tail_ipcKernelSend_iff {q : Mailbox} (msg : OsMessage) (h : q.Valid) :
    (ipcKernelSend msg q).tail = q.tail ↔ q.messages.length = 255 := by
  have hle := q.messages_length_le
  have hnext := Mailbox.next_ne_head_iff h
  have hmoves : (q.tail + 1) % ipcQueueSize ≠ q.tail := by
    have ht := h.tail
    rw [ipcQueueSize] at ht ⊢
    omega
  simp only [ipcKernelSend]
  by_cases hroom : (q.tail + 1) % ipcQueueSize = q.head
  · rw [if_neg (not_not.2 hroom)]
    refine iff_of_true rfl ?_
    by_contra hlen
    exact hnext.2 (by omega) hroom
  · rw [if_pos hroom]
    refine iff_of_false hmoves ?_
    have := hnext.1 hroom
    omega

/-- **A send that is refused** finds 255 messages, and leaves the queue. -/
theorem ipcKernelSend_of_full {q : Mailbox} (msg : OsMessage) (h : q.Valid)
    (hfull : q.messages.length = 255) : ipcKernelSend msg q = q := by
  have hnext := Mailbox.next_ne_head_iff h
  simp only [ipcKernelSend]
  rw [if_neg fun hne => ?_]
  have := hnext.1 hne
  omega

/-- **What a receive returns**: the oldest message, if there is one. -/
theorem ipcReceive_fst (buffer : OsMessage) {q : Mailbox} (h : q.Valid) :
    (ipcReceive buffer q).1 = q.messages.head?.getD (noMessage buffer) := by
  cases hq : q.messages with
  | nil => rw [ipcReceive_nil buffer h hq]; rfl
  | cons m ms =>
      obtain ⟨q', hrecv, -⟩ := ipcReceive_cons buffer h hq
      rw [hrecv]
      rfl

/-- **A receive** takes the oldest message off. -/
theorem Traffic.InOrder.receive (h : t.InOrder) (buffer : OsMessage) :
    (trafficStep t (.receive buffer)).mailbox.Valid ∧
      (trafficStep t (.receive buffer)).mailbox.messages = t.mailbox.messages.tail ∧
      (trafficStep t (.receive buffer)).received =
        t.received ++ t.mailbox.messages.head?.toList := by
  have hempty := Mailbox.messages_eq_nil_iff h.valid
  cases hq : t.mailbox.messages with
  | nil =>
      simp only [trafficStep, ipcReceive_nil buffer h.valid hq, if_pos (hempty.1 hq)]
      exact ⟨h.valid, hq, (List.append_nil _).symm⟩
  | cons m ms =>
      obtain ⟨q', hrecv, hvalid', hms⟩ := ipcReceive_cons buffer h.valid hq
      have hne : t.mailbox.head ≠ t.mailbox.tail := fun heq =>
        List.cons_ne_nil m ms (hq.symm.trans (hempty.2 heq))
      simp only [trafficStep, hrecv, if_neg hne]
      exact ⟨hvalid', hms, rfl⟩

/-- One operation keeps the order. -/
theorem Traffic.InOrder.step (h : t.InOrder) (op : MailboxOp) : (trafficStep t op).InOrder := by
  obtain ⟨hvalid, horder⟩ := h
  cases op with
  | send msg =>
      refine ⟨valid_ipcKernelSend msg hvalid, ?_⟩
      have hmoved := tail_ipcKernelSend_iff msg hvalid
      have hle := t.mailbox.messages_length_le
      simp only [trafficStep, messages_ipcKernelSend msg hvalid]
      by_cases hfull : t.mailbox.messages.length = 255
      · rw [if_neg (by omega), if_pos (hmoved.2 hfull)]
        exact horder
      · rw [if_pos (by omega), if_neg (fun hsame => hfull (hmoved.1 hsame)), ← List.append_assoc,
          horder]
  | receive buffer =>
      obtain ⟨hvalid', hmessages, hreceived⟩ := Traffic.InOrder.receive ⟨hvalid, horder⟩ buffer
      refine ⟨hvalid', ?_⟩
      rw [hmessages, hreceived, List.append_assoc]
      cases hq : t.mailbox.messages with
      | nil => rwa [hq] at horder
      | cons m ms => rwa [hq] at horder

/-- A run keeps the order. -/
theorem inOrder_run (queue : ℕ → OsMessage) (ops : List MailboxOp) :
    (run trafficStep (.start queue) ops).InOrder := by
  have hstart : (Traffic.start queue).InOrder :=
    ⟨⟨Nat.zero_lt_succ 255, Nat.zero_lt_succ 255⟩, Rings.between_self _ _ _⟩
  exact run_keeps (fun (t : Traffic) op (h : t.InOrder) => h.step op) hstart ops

end

/-- **The mailbox is a queue of at most 255 messages.**  After any run the messages received are
the first of those accepted.  A send puts its message behind those waiting, is refused only if 255
are waiting, and then leaves the queue; a receive returns the oldest of those waiting and takes it
off, and returns nothing only if none is. -/
theorem mailbox_fifo (queue : ℕ → OsMessage) (ops : List MailboxOp) :
    let t := run trafficStep (.start queue) ops
    t.received ++ t.waiting = t.accepted ∧ t.waiting.length ≤ 255 ∧
      (∀ msg, (trafficStep t (.send msg)).waiting =
        if t.waiting.length < 255 then t.waiting ++ [msg] else t.waiting) ∧
      (∀ msg, (ipcKernelSend msg t.mailbox).tail = t.mailbox.tail →
        t.waiting.length = 255 ∧ ipcKernelSend msg t.mailbox = t.mailbox) ∧
      ∀ buffer, (ipcReceive buffer t.mailbox).1 = t.waiting.head?.getD (noMessage buffer) ∧
        (trafficStep t (.receive buffer)).received = t.received ++ t.waiting.head?.toList ∧
        (trafficStep t (.receive buffer)).waiting = t.waiting.tail ∧
        ((ipcReceive buffer t.mailbox).1.type = .none →
          t.waiting = [] ∨ ∃ m ∈ t.waiting.head?, m.type = .none) := by
  intro t
  have h : t.InOrder := inOrder_run queue ops
  have hstep (op : MailboxOp) : (trafficStep t op).waiting = (trafficStep t op).mailbox.messages :=
    (h.step op).waiting_eq
  rw [h.waiting_eq]
  refine ⟨h.order, Mailbox.messages_length_le _, fun msg => ?_, fun msg hsame => ?_,
    fun buffer => ?_⟩
  · rw [hstep]
    exact messages_ipcKernelSend msg h.valid
  · have hfull := (tail_ipcKernelSend_iff msg h.valid).1 hsame
    exact ⟨hfull, ipcKernelSend_of_full msg h.valid hfull⟩
  · have hfst := ipcReceive_fst buffer h.valid
    obtain ⟨-, hmessages, hreceived⟩ := h.receive buffer
    refine ⟨hfst, hreceived, (hstep _).trans hmessages, fun hnone => ?_⟩
    rw [hfst] at hnone
    cases hq : t.mailbox.messages with
    | nil => exact .inl rfl
    | cons m ms =>
        rw [hq] at hnone
        exact .inr ⟨m, rfl, hnone⟩

/-- The message of a key. -/
def letter (c : UInt8) : OsMessage := ⟨1, 3, .keyPress, 1, fun _ => c⟩

/-- Two keys are sent and received: each receive returns one of them, in their order. -/
theorem two_letters_received :
    let t := run trafficStep (.start fun _ => letter 0) [.send (letter 104), .send (letter 105)]
    (ipcReceive (letter 0) t.mailbox).1 = letter 104 ∧
      (trafficStep t (.receive (letter 0))).waiting = [letter 105] ∧
      (run trafficStep t [.receive (letter 0), .receive (letter 0)]).received =
        [letter 104, letter 105] := by
  intro t
  have hwaiting : t.waiting = [letter 104, letter 105] := rfl
  have hreceived : t.received = [] := rfl
  obtain ⟨-, -, -, -, hreceive⟩ := mailbox_fifo (fun _ => letter 0)
    [.send (letter 104), .send (letter 105)]
  obtain ⟨-, -, -, -, hagain⟩ := mailbox_fifo (fun _ => letter 0)
    [.send (letter 104), .send (letter 105), .receive (letter 0)]
  obtain ⟨hfst, hfirst, hleft, -⟩ := hreceive (letter 0)
  rw [hwaiting] at hfst hfirst hleft
  refine ⟨hfst, hleft, ?_⟩
  calc (run trafficStep t [.receive (letter 0), .receive (letter 0)]).received
      = (trafficStep t (.receive (letter 0))).received ++
          (trafficStep t (.receive (letter 0))).waiting.head?.toList := (hagain (letter 0)).2.1
    _ = [letter 104, letter 105] := by rw [hfirst, hleft, hreceived]; rfl

/-- A message of the type `IPC_MSG_NONE` is received as one that waited. -/
theorem none_message_received :
    ¬ ∀ queue ops buffer,
      (ipcReceive buffer (run trafficStep (.start queue) ops).mailbox).1.type = .none →
        (run trafficStep (.start queue) ops).waiting = [] := by
  intro h
  have hempty := h (fun _ => ⟨1, 3, .none, 0, fun _ => 0⟩) [.send ⟨1, 3, .none, 0, fun _ => 0⟩]
    ⟨1, 3, .none, 0, fun _ => 0⟩ rfl
  cases hempty

end Kernel
end AiOsExchange
