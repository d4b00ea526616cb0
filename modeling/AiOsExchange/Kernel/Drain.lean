/-
# One drain of the hardware

`drain_hardware_queues` of `kernel/syscall.c` polls the keyboard until a poll returns 0, and then the
UART until a poll returns 0.

| a poll returns 0 for | and takes |
| --- | --- |
| an empty queue | nothing |
| an event without a character | the event |
| a zero byte of the UART | the byte |

So a drain stops at the first event without a character and at the first zero byte, and what is
behind them stays (`heard`).  It empties both queues into the mailbox if and only if there is no such
event, but for the last, and no such byte (`drainsAll_iff`).  To the shell a drain is a batch of what
the polls return before a 0 (`drain_batch`).
-/

import AiOsExchange.Shell.Main
import AiOsExchange.Virtio.Shift

namespace AiOsExchange
namespace Kernel

open CMemory Runs Virtio
open Shell (keyMessage sysModUart uartChar Batch drained_of_fits)

/-! ### The drain -/

/-- What a drain works on: the keyboard, the bytes in the receive FIFO of the UART, the mailbox. -/
structure Hardware where
  keyboard : InputDriver
  uart : List UInt8
  ipc : Mailbox

/-- `uart_poll_rx`. -/
def uartPollRx : List UInt8 → UInt8 × List UInt8
  | [] => (0, [])
  | c :: uart => (c, uart)

/-- `while ((c = virtio_input_poll()) != 0)`. -/
def drainKeyboard (pay : Buf) : ℕ → Hardware → Option Hardware
  | 0, _ => none
  | fuel + 1, hw =>
      let c := (virtioInputPoll hw.keyboard).1
      let hw := { hw with keyboard := (virtioInputPoll hw.keyboard).2 }
      if c = 0 then some hw
      else
        drainKeyboard pay fuel
          { hw with ipc := ipcKernelSend (keyMessage sysModKernel pay c) hw.ipc }

/-- `while ((c = uart_poll_rx()) != 0)`. -/
def drainUart (pay : Buf) : ℕ → Hardware → Option Hardware
  | 0, _ => none
  | fuel + 1, hw =>
      let c := (uartPollRx hw.uart).1
      let hw := { hw with uart := (uartPollRx hw.uart).2 }
      if c = 0 then some hw
      else
        drainUart pay fuel
          { hw with ipc := ipcKernelSend (keyMessage sysModUart pay (uartChar c)) hw.ipc }

/-- `drain_hardware_queues`; `pay` is the memory at `hw_msg`. -/
def drainHardwareQueues (pay : Buf) (fuel : ℕ) (hw : Hardware) : Option Hardware :=
  (drainKeyboard pay fuel hw).bind (drainUart pay fuel)

/-- The pending events of the keyboard. -/
def Hardware.events (hw : Hardware) : List VirtioInputEvent :=
  (hw.keyboard.queue.pending virtqSize).map Completion.content

theorem Hardware.events_mk (d : InputDriver) (uart : List UInt8) (ipc : Mailbox) :
    (⟨d, uart, ipc⟩ : Hardware).events = (d.queue.pending virtqSize).map Completion.content := rfl

/-! ### What is heard -/

/-- The characters of events, with the shift key. -/
def charsOf (shiftActive : Bool) : List VirtioInputEvent → List UInt8
  | [] => []
  | evt :: evts =>
      let chars := charsOf (keyOf shiftActive evt).2 evts
      if (keyOf shiftActive evt).1 = 0 then chars else (keyOf shiftActive evt).1 :: chars

/-- The characters up to the first event without one, and the events behind it. -/
def heard (shiftActive : Bool) : List VirtioInputEvent → List UInt8 × List VirtioInputEvent
  | [] => ([], [])
  | evt :: evts =>
      if (keyOf shiftActive evt).1 = 0 then ([], evts)
      else
        ((keyOf shiftActive evt).1 :: (heard (keyOf shiftActive evt).2 evts).1,
          (heard (keyOf shiftActive evt).2 evts).2)

/-- The bytes up to the first zero byte, and those behind it. -/
def heardBytes (uart : List UInt8) : List UInt8 × List UInt8 :=
  (uart.takeWhile (· ≠ 0), (uart.dropWhile (· ≠ 0)).tail)

/-- An event without a character: anything but a press or repeat of a key of the keymaps. -/
def Silent (evt : VirtioInputEvent) : Prop :=
  ¬ (evt.IsCharacterKey ∧ keymapUsLower.getD evt.code 0 ≠ 0)

instance (evt : VirtioInputEvent) : Decidable (Silent evt) :=
  inferInstanceAs (Decidable (¬ _))

section
variable {evts : List VirtioInputEvent} {evt : VirtioInputEvent} {pay : Buf} {hw hw' : Hardware}
  {fuel : ℕ}

/-- The keymaps have characters for the same keys. -/
theorem keymaps_zero : ∀ code < 128,
    (keymapUsUpper.getD code 0 = 0 ↔ keymapUsLower.getD code 0 = 0) := by decide +kernel

/-- Whether an event has a character does not depend on the shift keys. -/
theorem keyOf_eq_zero_iff (shiftActive : Bool) (evt : VirtioInputEvent) :
    (keyOf shiftActive evt).1 = 0 ↔ Silent evt := by
  rw [Silent, VirtioInputEvent.IsCharacterKey]
  by_cases htype : evt.type = 1
  · by_cases hcode : evt.code = 42 ∨ evt.code = 54
    · simp [keyOf, htype, hcode]
    · by_cases hvalue : (evt.value = 1 ∨ evt.value = 2) ∧ evt.code < 128
      · have hzero := keymaps_zero evt.code hvalue.2
        simp only [keyOf, if_pos htype, if_neg hcode, if_pos hvalue]
        cases shiftActive <;> simp_all
      · simp only [keyOf, if_pos htype, if_neg hcode, if_neg hvalue]
        simp [hvalue]
  · simp [keyOf, htype]

/-- All events are heard but for the last if and only if none of the others is silent. -/
theorem heard_nil_iff (shiftActive : Bool) (evts : List VirtioInputEvent) :
    (heard shiftActive evts).2 = [] ↔ ∀ evt ∈ evts.dropLast, ¬ Silent evt := by
  induction evts generalizing shiftActive with
  | nil => simp [heard]
  | cons evt evts ih =>
      rw [heard]
      cases evts with
      | nil => split_ifs <;> simp [heard]
      | cons next evts =>
          rw [List.dropLast_cons_cons, List.forall_mem_cons, ← ih (keyOf shiftActive evt).2]
          split_ifs with h0
          · refine iff_of_false (by simp) fun h => ?_
            exact h.1 ((keyOf_eq_zero_iff shiftActive evt).1 h0)
          · refine (and_iff_right ?_).symm
            exact fun h => h0 ((keyOf_eq_zero_iff shiftActive evt).2 h)

/-- What is heard is the first of the characters. -/
theorem charsOf_eq (shiftActive : Bool) (evts : List VirtioInputEvent) :
    ∃ later, charsOf shiftActive evts =
      (heard shiftActive evts).1 ++ charsOf later (heard shiftActive evts).2 := by
  induction evts generalizing shiftActive with
  | nil => exact ⟨shiftActive, rfl⟩
  | cons evt evts ih =>
      rw [charsOf, heard]
      split_ifs
      · exact ⟨(keyOf shiftActive evt).2, rfl⟩
      · obtain ⟨later, hlater⟩ := ih (keyOf shiftActive evt).2
        exact ⟨later, by simp only [hlater, List.cons_append]⟩

/-! ### One poll -/

/-- A keyboard that some run of the queue has left. -/
def Reached (d : InputDriver) : Prop :=
  ∃ made t completed p, Phase virtqSize d.queue made t completed p

theorem reached_run (usedRing : ℕ → VirtqUsedElem) (events : ℕ → VirtioInputEvent)
    (ops : List (QueueOp VirtioInputEvent)) :
    Reached (run inputReceiver.step (inputStart usedRing events) ops).driver := by
  have hstart : inputReceiver.InPhase (inputStart usedRing events) :=
    ⟨List.range virtqSize, 0, 0, phase_init virtqSize (by decide) usedRing events, rfl⟩
  obtain ⟨made, t, p, h, -⟩ := run_keeps (inPhase_step inputReceiver) hstart ops
  exact ⟨made, t, _, p, h⟩

/-- What is pending is what has been completed and not polled. -/
theorem pending_of_phase {q : VirtQueue VirtioInputEvent} {made : List ℕ} {t p : ℕ}
    {completed : List (Completion VirtioInputEvent)} (h : Phase virtqSize q made t completed p) :
    q.pending virtqSize = completed.drop p := h.pending_eq (by decide) (by decide)

/-- A poll of a keyboard without pending events. -/
theorem poll_nil (h : Reached hw.keyboard) (hnil : hw.events = []) :
    virtioInputPoll hw.keyboard = (0, hw.keyboard) := by
  obtain ⟨made, t, completed, p, h⟩ := h
  have hpending := List.map_eq_nil_iff.1 hnil
  rw [pending_of_phase h] at hpending
  exact inputReceiver.poll_none _ (h.poll_nil hpending)

/-- A poll takes the first of the pending events. -/
theorem poll_cons (h : Reached hw.keyboard) (hcons : hw.events = evt :: evts) :
    ∃ d, virtioInputPoll hw.keyboard = ((keyOf hw.keyboard.shiftActive evt).1, d) ∧ Reached d ∧
      d.shiftActive = (keyOf hw.keyboard.shiftActive evt).2 ∧
      ({ hw with keyboard := d } : Hardware).events = evts := by
  obtain ⟨made, t, completed, p, h⟩ := h
  obtain ⟨c, rest, hrest, rfl, hmap⟩ := List.map_eq_cons_iff.1 hcons
  have hdrop := (pending_of_phase h).symm.trans hrest
  obtain ⟨hpoll, h'⟩ := h.poll_cons inputReceiver.size_lt inputReceiver.size_dvd
    inputReceiver.descId_of_lt hdrop
  refine ⟨_, virtioInputPoll_some hpoll, ⟨_, t, completed, p + 1, h'⟩, rfl, ?_⟩
  rw [Hardware.events, ← hmap, pending_of_phase h', ← List.tail_drop, hdrop, List.tail_cons]

/-! ### The loops -/

/-- The loop over the keyboard sends what is heard and leaves what is behind it, with fuel for one
round more than that. -/
theorem drainKeyboard_eq (pay : Buf) (h : Reached hw.keyboard) :
    ∃ d, (∀ fuel, drainKeyboard pay fuel hw =
      if (heard hw.keyboard.shiftActive hw.events).1.length < fuel then some ⟨d, hw.uart,
        ((heard hw.keyboard.shiftActive hw.events).1.map (keyMessage sysModKernel pay)).foldl
          (fun q msg => ipcKernelSend msg q) hw.ipc⟩
      else none) ∧
      ({ hw with keyboard := d } : Hardware).events =
        (heard hw.keyboard.shiftActive hw.events).2 := by
  generalize hevts : hw.events = evts
  induction evts generalizing hw with
  | nil =>
      refine ⟨hw.keyboard, fun fuel => ?_, hevts⟩
      cases fuel with
      | zero => rfl
      | succ fuel =>
          rw [drainKeyboard, poll_nil h hevts]
          simp only [heard, List.length_nil, Nat.succ_pos, if_true, List.map_nil, List.foldl_nil]
  | cons evt evts ih =>
      obtain ⟨d, hpoll, hd, hshift, hrest⟩ := poll_cons h hevts
      rw [heard]
      by_cases h0 : (keyOf hw.keyboard.shiftActive evt).1 = 0
      · refine ⟨d, fun fuel => ?_, by rw [if_pos h0, hrest]⟩
        cases fuel with
        | zero => rfl
        | succ fuel =>
            rw [drainKeyboard, hpoll]
            simp only [if_pos h0, List.length_nil, Nat.succ_pos, if_true, List.map_nil,
              List.foldl_nil]
      · obtain ⟨d', hloop, hrest'⟩ := @ih { hw with
          keyboard := d
          ipc := ipcKernelSend (keyMessage sysModKernel pay (keyOf hw.keyboard.shiftActive evt).1)
            hw.ipc } hd hrest
        simp only [hshift] at hloop hrest'
        refine ⟨d', fun fuel => ?_, by rw [if_neg h0]; exact hrest'⟩
        cases fuel with
        | zero => rfl
        | succ fuel =>
            rw [drainKeyboard, hpoll]
            simp only [if_neg h0, hloop, List.length_cons, Nat.succ_lt_succ_iff, List.map_cons,
              List.foldl_cons]

/-- The loop over the UART. -/
theorem drainUart_eq (pay : Buf) (fuel : ℕ) (hw : Hardware) :
    drainUart pay fuel hw = if (heardBytes hw.uart).1.length < fuel then
      some ⟨hw.keyboard, (heardBytes hw.uart).2, ((heardBytes hw.uart).1.map fun c =>
        keyMessage sysModUart pay (uartChar c)).foldl (fun q msg => ipcKernelSend msg q) hw.ipc⟩
    else none := by
  induction fuel generalizing hw with
  | zero => rfl
  | succ fuel ih =>
      rw [drainUart]
      cases huart : hw.uart with
      | nil => simp [heardBytes, uartPollRx]
      | cons c uart =>
          by_cases h0 : c = 0
          · simp [heardBytes, uartPollRx, h0]
          · simp [heardBytes, uartPollRx, h0, ih]

/-! ### The whole drain -/

theorem heard_nonzero (shiftActive : Bool) (evts : List VirtioInputEvent) :
    ∀ c ∈ (heard shiftActive evts).1, c ≠ 0 := by
  induction evts generalizing shiftActive with
  | nil => simp [heard]
  | cons evt evts ih =>
      rw [heard]
      split_ifs with h0
      · simp
      · exact List.forall_mem_cons.2 ⟨h0, ih (keyOf shiftActive evt).2⟩

theorem heardBytes_nonzero (uart : List UInt8) : ∀ c ∈ (heardBytes uart).1, c ≠ 0 :=
  fun _ hc => of_decide_eq_true (List.mem_takeWhile_imp (p := fun c => decide (c ≠ 0)) hc)

/-- What a drain hears. -/
def Hardware.batch (hw : Hardware) (pay : Buf) : Batch where
  keyboard := (heard hw.keyboard.shiftActive hw.events).1
  uart := (heardBytes hw.uart).1
  pay := pay
  nonzero c hc := (List.mem_append.1 hc).elim (heard_nonzero _ _ c) (heardBytes_nonzero _ c)

theorem batch_messages_mk {keyboard uart : List UInt8} (pay : Buf)
    (h : ∀ c ∈ keyboard ++ uart, c ≠ 0) : (⟨keyboard, uart, pay, h⟩ : Batch).messages =
      keyboard.map (keyMessage sysModKernel pay) ++
        uart.map fun c => keyMessage sysModUart pay (uartChar c) := rfl

theorem Hardware.batch_messages (hw : Hardware) (pay : Buf) : (hw.batch pay).messages =
    (heard hw.keyboard.shiftActive hw.events).1.map (keyMessage sysModKernel pay) ++
      (heardBytes hw.uart).1.map fun c => keyMessage sysModUart pay (uartChar c) :=
  batch_messages_mk pay _

/-- What a drain leaves. -/
structure Hardware.Drained (hw hw' : Hardware) (pay : Buf) : Prop where
  events : hw'.events = (heard hw.keyboard.shiftActive hw.events).2
  uart : hw'.uart = (heardBytes hw.uart).2
  ipc : hw'.ipc = Shell.drainHardwareQueues (hw.batch pay) hw.ipc

/-- Both loops hear their part of the batch. -/
theorem drainHardwareQueues_eq (pay : Buf) (h : Reached hw.keyboard) :
    ∃ hw', (∀ fuel, drainHardwareQueues pay fuel hw =
      if (heard hw.keyboard.shiftActive hw.events).1.length < fuel ∧
        (heardBytes hw.uart).1.length < fuel then some hw' else none) ∧ hw.Drained hw' pay := by
  obtain ⟨d, hloop, hrest⟩ := drainKeyboard_eq pay h
  rw [Hardware.events_mk] at hrest
  refine ⟨⟨d, (heardBytes hw.uart).2, Shell.drainHardwareQueues (hw.batch pay) hw.ipc⟩,
    fun fuel => ?_, by rw [Hardware.events_mk, hrest], rfl, rfl⟩
  rw [drainHardwareQueues, hloop, ite_and]
  by_cases hkeys : (heard hw.keyboard.shiftActive hw.events).1.length < fuel
  · rw [if_pos hkeys, if_pos hkeys, Option.bind_some, drainUart_eq, Shell.drainHardwareQueues,
      Hardware.batch_messages, List.foldl_append]
  · rw [if_neg hkeys, if_neg hkeys, Option.bind_none]

/-- **A drain ends.** -/
theorem drain_terminates (pay : Buf) (h : Reached hw.keyboard) :
    ∃ fuel hw', drainHardwareQueues pay fuel hw = some hw' ∧ hw.Drained hw' pay := by
  obtain ⟨hw', hdrain, hdrained⟩ := drainHardwareQueues_eq pay h
  exact ⟨(heard hw.keyboard.shiftActive hw.events).1.length + (heardBytes hw.uart).1.length + 1, hw',
    (hdrain _).trans (if_pos ⟨by omega, by omega⟩), hdrained⟩

/-- **To the shell a drain is a batch**: what the polls return before a 0. -/
theorem drain_batch (h : Reached hw.keyboard) (hsome : drainHardwareQueues pay fuel hw = some hw') :
    hw.Drained hw' pay := by
  obtain ⟨hw'', hdrain, hdrained⟩ := drainHardwareQueues_eq pay h
  rw [hdrain] at hsome
  split_ifs at hsome
  exact Option.some.inj hsome ▸ hdrained

/-- The polls hear no more than the queues hold. -/
theorem heard_length_le (shiftActive : Bool) (evts : List VirtioInputEvent) :
    (heard shiftActive evts).1.length ≤ (charsOf shiftActive evts).length := by
  obtain ⟨later, hchars⟩ := charsOf_eq shiftActive evts
  rw [hchars, List.length_append]
  exact Nat.le_add_right _ _

theorem heardBytes_length_le (uart : List UInt8) : (heardBytes uart).1.length ≤ uart.length :=
  (List.takeWhile_sublist _).length_le

/-- Without a zero byte all bytes are heard. -/
theorem heardBytes_of_zero_not_mem {uart : List UInt8} (h : (0 : UInt8) ∉ uart) :
    heardBytes uart = (uart, []) := by
  have hdrop : uart.dropWhile (fun c => decide (c ≠ 0)) = [] :=
    List.dropWhile_eq_nil_iff.2 fun c hc => decide_eq_true fun hc0 => h (hc0 ▸ hc)
  exact Prod.ext (takeWhile_ne_zero h) (congrArg List.tail hdrop)

/-- With room for them, the messages of a drain are behind those that were there. -/
theorem Hardware.Drained.messages (h : hw.Drained hw' pay) (hvalid : hw.ipc.Valid)
    (hroom : hw.ipc.messages.length + ((charsOf hw.keyboard.shiftActive hw.events).length +
      hw.uart.length) ≤ 255) :
    hw'.ipc.messages = hw.ipc.messages ++
      ((heard hw.keyboard.shiftActive hw.events).1.map (keyMessage sysModKernel pay) ++
        (heardBytes hw.uart).1.map fun c => keyMessage sysModUart pay (uartChar c)) := by
  have hkeys := heard_length_le hw.keyboard.shiftActive hw.events
  have hbytes := heardBytes_length_le hw.uart
  rw [h.ipc, ← Hardware.batch_messages]
  refine drained_of_fits hvalid ?_
  rw [Hardware.batch_messages, List.length_append, List.length_map, List.length_map]
  omega

end

/-- One drain delivers the characters of all pending events and all pending bytes, in this order,
and leaves both queues empty. -/
def DrainsAll (pay : Buf) (hw : Hardware) : Prop :=
  ∃ fuel hw', drainHardwareQueues pay fuel hw = some hw' ∧ hw'.events = [] ∧ hw'.uart = [] ∧
    hw'.ipc.messages = hw.ipc.messages ++
      ((charsOf hw.keyboard.shiftActive hw.events).map (keyMessage sysModKernel pay) ++
        hw.uart.map fun c => keyMessage sysModUart pay (uartChar c))

/-- **When one drain empties the queues.**  With room in the mailbox it does if and only if no
pending event but the last is without a character, and no pending byte is zero. -/
theorem drainsAll_iff (usedRing : ℕ → VirtqUsedElem) (events : ℕ → VirtioInputEvent)
    (ops : List (QueueOp VirtioInputEvent)) (pay : Buf) (hw : Hardware)
    (hkeyboard : hw.keyboard = (run inputReceiver.step (inputStart usedRing events) ops).driver)
    (hvalid : hw.ipc.Valid)
    (hroom : hw.ipc.messages.length + ((charsOf hw.keyboard.shiftActive hw.events).length +
      hw.uart.length) ≤ 255) :
    DrainsAll pay hw ↔ (∀ evt ∈ hw.events.dropLast, ¬ Silent evt) ∧ (0 : UInt8) ∉ hw.uart := by
  have hreached : Reached hw.keyboard := by
    rw [hkeyboard]
    exact reached_run usedRing events ops
  rw [← heard_nil_iff hw.keyboard.shiftActive]
  constructor
  · rintro ⟨fuel, hw', hsome, hevents, huart, hipc⟩
    have hdrained := drain_batch hreached hsome
    refine ⟨hdrained.events.symm.trans hevents, fun h0 => ?_⟩
    rw [hdrained.messages hvalid hroom] at hipc
    have hsum := congrArg List.length (List.append_cancel_left hipc)
    simp only [List.length_append, List.length_map] at hsum
    have hkeys := heard_length_le hw.keyboard.shiftActive hw.events
    have hbytes := heardBytes_length_le hw.uart
    have hall : (heardBytes hw.uart).1 = hw.uart :=
      (List.takeWhile_prefix _).eq_of_length
        (show (heardBytes hw.uart).1.length = hw.uart.length by omega)
    exact heardBytes_nonzero hw.uart 0 (by rwa [hall]) rfl
  · rintro ⟨hnil, h0⟩
    obtain ⟨fuel, hw', hsome, hdrained⟩ := drain_terminates pay hreached
    obtain ⟨later, hchars⟩ := charsOf_eq hw.keyboard.shiftActive hw.events
    rw [hnil, charsOf, List.append_nil] at hchars
    have hall := heardBytes_of_zero_not_mem h0
    refine ⟨fuel, hw', hsome, hdrained.events.trans hnil, by rw [hdrained.uart, hall], ?_⟩
    rw [hdrained.messages hvalid hroom, hchars, hall]

/-- The queue operations that leave these two events pending. -/
def twoEvents (first second : VirtioInputEvent) : List (QueueOp VirtioInputEvent) :=
  [.take, .take, .complete ⟨0, 8, first⟩, .complete ⟨1, 8, second⟩]

/-- These two events pending and these bytes waiting, with the mailbox empty. -/
def twoPending (first second : VirtioInputEvent) (uart : List UInt8) : Hardware :=
  ⟨(run inputReceiver.step (inputStart (fun _ => ⟨0, 0⟩) fun _ => ⟨0, 0, 0⟩)
    (twoEvents first second)).driver, uart, ⟨fun _ => ⟨0, 0, .none, 0, fun _ => 0⟩, 0, 0⟩⟩

/-- What is pending is what the device completed, since nothing has been polled. -/
theorem twoPending_events (first second : VirtioInputEvent) (uart : List UInt8) :
    (twoPending first second uart).events = [first, second] := by
  have horder := (intact_run inputReceiver (inputStart (fun _ => ⟨0, 0⟩) fun _ => ⟨0, 0, 0⟩).driver
    rfl (twoEvents first second)).inOrder
  have hdelivered : (run inputReceiver.step
      ⟨(inputStart (fun _ => ⟨0, 0⟩) fun _ => ⟨0, 0, 0⟩).driver, [], []⟩
      (twoEvents first second)).delivered = [] := rfl
  have hcompleted : (run inputReceiver.step
      ⟨(inputStart (fun _ => ⟨0, 0⟩) fun _ => ⟨0, 0, 0⟩).driver, [], []⟩
      (twoEvents first second)).completed = [⟨0, 8, first⟩, ⟨1, 8, second⟩] := rfl
  rw [hdelivered, hcompleted, List.nil_append] at horder
  exact congrArg (List.map Completion.content) horder

/-- A letter, the release of its key, and a line of the UART. -/
theorem letter_and_line_drained :
    DrainsAll (fun _ => 0) (twoPending (pressOf 30) ⟨1, 30, 0⟩ [104, 105, 13]) := by
  refine (drainsAll_iff (fun _ => ⟨0, 0⟩) (fun _ => ⟨0, 0, 0⟩) (twoEvents (pressOf 30) ⟨1, 30, 0⟩)
    (fun _ => 0) (twoPending (pressOf 30) ⟨1, 30, 0⟩ [104, 105, 13]) rfl ⟨by decide, by decide⟩
    ?_).2 ⟨?_, by decide⟩
  · rw [twoPending_events]
    decide
  · rw [twoPending_events]
    decide

/-- A letter behind the release of a key is not delivered. -/
theorem letter_behind_release : ¬ ∀ (usedRing : ℕ → VirtqUsedElem) (events : ℕ → VirtioInputEvent)
    (ops : List (QueueOp VirtioInputEvent)) (pay : Buf) (hw : Hardware),
    hw.keyboard = (run inputReceiver.step (inputStart usedRing events) ops).driver → hw.ipc.Valid →
      hw.ipc.messages.length + ((charsOf hw.keyboard.shiftActive hw.events).length +
        hw.uart.length) ≤ 255 → DrainsAll pay hw := by
  intro h
  have hevents := twoPending_events ⟨1, 28, 0⟩ (pressOf 30) []
  have hroom : (twoPending ⟨1, 28, 0⟩ (pressOf 30) []).ipc.messages.length + ((charsOf
      (twoPending ⟨1, 28, 0⟩ (pressOf 30) []).keyboard.shiftActive
      (twoPending ⟨1, 28, 0⟩ (pressOf 30) []).events).length +
      (twoPending ⟨1, 28, 0⟩ (pressOf 30) []).uart.length) ≤ 255 := by
    rw [hevents]
    decide
  obtain ⟨fuel, hw', hsome, hnil, -⟩ := h (fun _ => ⟨0, 0⟩) (fun _ => ⟨0, 0, 0⟩)
    (twoEvents ⟨1, 28, 0⟩ (pressOf 30)) (fun _ => 0) (twoPending ⟨1, 28, 0⟩ (pressOf 30) []) rfl
    ⟨by decide, by decide⟩ hroom
  have hreached := reached_run (fun _ => ⟨0, 0⟩) (fun _ => ⟨0, 0, 0⟩)
    (twoEvents ⟨1, 28, 0⟩ (pressOf 30))
  have hleft := (drain_batch hreached hsome).events
  rw [hnil, hevents] at hleft
  exact absurd (congrArg List.length hleft) (by decide)

end Kernel
end AiOsExchange
