/-
# Receive queues

`kernel/virtio.c` (keyboard) and `kernel/virtio_net.c` (network).  A receive queue lends all its
buffers to the device at once and gives each back after reading it.  The two rings are shared
memory: the driver writes descriptor ids to the available ring, the device writes them, with the
number of bytes it stored, to the used ring.  All four indices are 16-bit counters, reduced
modulo the size of the queue where a ring is accessed.

| source | here |
| --- | --- |
| `virtq_avail`, `virtq_used`, the buffers, `in_last_used_idx` / `last_used_idx` | `VirtQueue` |
| the end of `virtio_probe_and_init` / `virtio_net_init` | `VirtQueue.init` |
| `virtio_input_poll` | `virtioInputPoll` |
| `virtio_net_poll_rx` | `virtioNetPollRx` |

The device is no code of the repository.  It keeps one more counter, how far it has read the
available ring, and the ids it has taken (`lastAvailIdx`, `held`); it takes available entries in
order and returns what it holds in any order (`take`, `complete`).  Cache maintenance and the
notification register are left out, and both functions are taken after their test for a device.
-/

import AiOsExchange.Lib.Buffer
import AiOsExchange.Lib.Ring

namespace AiOsExchange
namespace Virtio

open CMemory

/-- `virtq_used_elem`. -/
structure VirtqUsedElem where
  id : ℕ
  len : ℕ
  deriving DecidableEq

/-- A receive queue with its buffers and the private counters of both sides. -/
structure VirtQueue (β : Type) where
  availRing : ℕ → ℕ
  availIdx : ℕ
  usedRing : ℕ → VirtqUsedElem
  usedIdx : ℕ
  buffers : ℕ → β
  lastUsedIdx : ℕ
  lastAvailIdx : ℕ
  held : List ℕ

/-- A buffer the device has filled: its descriptor, how many bytes, and what they are. -/
structure Completion (β : Type) where
  id : ℕ
  len : ℕ
  content : β

/-- The values of a 16-bit index. -/
def idxRange : ℕ := 2 ^ 16

/-- `idx + 1` of a 16-bit index. -/
def nextIdx (idx : ℕ) : ℕ := (idx + 1) % idxRange

namespace VirtQueue

variable {β : Type}

/-- All of the `size` buffers are available and nothing is used. -/
def init (size : ℕ) (usedRing : ℕ → VirtqUsedElem) (buffers : ℕ → β) : VirtQueue β where
  availRing j := j
  availIdx := size
  usedRing := usedRing
  usedIdx := 0
  buffers := buffers
  lastUsedIdx := 0
  lastAvailIdx := 0
  held := []

/-! ### The driver -/

/-- The entry a poll looks at, its id cut to what the driver's variable holds. -/
def usedEntry (size : ℕ) (descId : ℕ → ℕ) (q : VirtQueue β) : Completion β :=
  let elem := q.usedRing (q.lastUsedIdx % size)
  ⟨descId elem.id, elem.len, q.buffers (descId elem.id)⟩

/-- Give a buffer back: its id goes to the 16-bit slot at `avail->idx`, and both counters of the
driver move on. -/
def recycle (size id : ℕ) (q : VirtQueue β) : VirtQueue β :=
  { q with
    availRing := Function.update q.availRing (q.availIdx % size) (id % idxRange)
    availIdx := nextIdx q.availIdx
    lastUsedIdx := nextIdx q.lastUsedIdx }

/-- What both polls do with the queue: read the next used entry, if there is one, and give its
buffer back. -/
def poll (size : ℕ) (descId : ℕ → ℕ) (q : VirtQueue β) : Option (Completion β) × VirtQueue β :=
  if q.usedIdx ≠ q.lastUsedIdx then
    let c := q.usedEntry size descId
    (some c, q.recycle size c.id)
  else (none, q)

/-! ### The device -/

/-- The device takes the next available entry. -/
def take (size : ℕ) (q : VirtQueue β) : VirtQueue β :=
  if q.lastAvailIdx ≠ q.availIdx then
    { q with
      lastAvailIdx := nextIdx q.lastAvailIdx
      held := q.held ++ [q.availRing (q.lastAvailIdx % size)] }
  else q

/-- The device fills a buffer it holds and puts it on the used ring. -/
def complete (size : ℕ) (c : Completion β) (q : VirtQueue β) : VirtQueue β :=
  if c.id ∈ q.held then
    { q with
      buffers := Function.update q.buffers c.id c.content
      usedRing := Function.update q.usedRing (q.usedIdx % size) ⟨c.id, c.len⟩
      usedIdx := nextIdx q.usedIdx
      held := q.held.erase c.id }
  else q

/-! ### Where the buffers are -/

/-- The ids available to the device. -/
def available (size : ℕ) (q : VirtQueue β) : List ℕ :=
  Rings.between size idxRange q.availRing q.lastAvailIdx q.availIdx

/-- The slots they stand in. -/
def availableSlots (size : ℕ) (q : VirtQueue β) : List ℕ :=
  Rings.between size idxRange id q.lastAvailIdx q.availIdx

/-- The used entries not yet polled. -/
def unpolled (size : ℕ) (q : VirtQueue β) : List VirtqUsedElem :=
  Rings.between size idxRange q.usedRing q.lastUsedIdx q.usedIdx

/-- What polling them would read. -/
def pending (size : ℕ) (q : VirtQueue β) : List (Completion β) :=
  (q.unpolled size).map fun e => ⟨e.id, e.len, q.buffers e.id⟩

end VirtQueue

/-! ### The keyboard -/

/-- `virtio_input_event`. -/
structure VirtioInputEvent where
  type : ℕ
  code : ℕ
  value : ℕ

/-- `VIRTQ_SIZE`. -/
def virtqSize : ℕ := 256

/-- `keymap_us_lower`, zero from entry 58 on. -/
def keymapUsLower : List UInt8 :=
  [0, 27] ++ ascii "1234567890-=" ++ [8, 9] ++ ascii "qwertyuiop[]" ++ [10, 0] ++
    ascii "asdfghjkl;'`" ++ [0] ++ ascii "\\zxcvbnm,./" ++ [0] ++ ascii "*" ++ [0] ++ ascii " "

/-- `keymap_us_upper`, zero from entry 58 on. -/
def keymapUsUpper : List UInt8 :=
  [0, 27] ++ ascii "!@#$%^&*()_+" ++ [8, 9] ++ ascii "QWERTYUIOP" ++ [123, 125] ++ [10, 0] ++
    ascii "ASDFGHJKL:\"~" ++ [0] ++ ascii "|ZXCVBNM<>?" ++ [0] ++ ascii "*" ++ [0] ++ ascii " "

/-- The character of an event, and `shift_active` after it: a shift key sets it, a key pressed
or repeated has a character. -/
def keyOf (shiftActive : Bool) (evt : VirtioInputEvent) : UInt8 × Bool :=
  if evt.type = 1 then
    if evt.code = 42 ∨ evt.code = 54 then (0, decide (evt.value = 1))
    else if (evt.value = 1 ∨ evt.value = 2) ∧ evt.code < 128 then
      ((if shiftActive then keymapUsUpper else keymapUsLower).getD evt.code 0, shiftActive)
    else (0, shiftActive)
  else (0, shiftActive)

/-- The input queue and `shift_active`. -/
structure InputDriver where
  queue : VirtQueue VirtioInputEvent
  shiftActive : Bool

/-- The queue's share of `virtio_input_poll`: `desc_idx` is 32 bits wide. -/
def inputPoll : VirtQueue VirtioInputEvent → Option (Completion VirtioInputEvent) ×
    VirtQueue VirtioInputEvent :=
  VirtQueue.poll virtqSize fun id => id % 2 ^ 32

/-- `virtio_input_poll`. -/
def virtioInputPoll (d : InputDriver) : UInt8 × InputDriver :=
  match inputPoll d.queue with
  | (some c, q) => ((keyOf d.shiftActive c.content).1, ⟨q, (keyOf d.shiftActive c.content).2⟩)
  | (none, q) => (0, { d with queue := q })

/-! ### The network -/

/-- `QUEUE_SIZE`. -/
def queueSize : ℕ := 8

/-- The loop over the digits from `fix_data[j]` on; `j` is an `int`. -/
def readVolume (fixData : Buf) : ℕ → ℕ → Int32 → Int32
  | 0, _, volume => volume
  | fuel + 1, j, volume =>
      if 48 ≤ fixData j ∧ fixData j ≤ 57 then
        readVolume fixData fuel (j + 1) (volume * 10 + (Int32.ofNat (fixData j).toNat - 48))
      else volume

/-- The volume of a packet: the number behind the first `38=`. -/
def volumeOf (payload : Buf) (pktLen : ℕ) : Int32 :=
  let fixData : Buf := fun i => payload (26 + i)
  if 28 < pktLen ∧ pktLen < 2 ^ 31 then
    match (List.range (pktLen - 28)).find? fun i => bytesAt fixData i 3 = ascii "38=" with
    | some i => readVolume fixData (2 ^ 31) (i + 3) 0
    | none => 0
  else 0

/-- The queue's share of `virtio_net_poll_rx`: `desc_id` is 16 bits wide. -/
def netPoll : VirtQueue Buf → Option (Completion Buf) × VirtQueue Buf :=
  VirtQueue.poll queueSize fun id => id % 2 ^ 16

/-- `virtio_net_poll_rx`; of a buffer the content is the memory from its first byte on. -/
def virtioNetPollRx (q : VirtQueue Buf) : Int32 × VirtQueue Buf :=
  match netPoll q with
  | (some c, q) => (volumeOf c.content c.len, q)
  | (none, q) => (0, q)

end Virtio
end AiOsExchange
