/-
# Request queues

The block and GPU requests of `kernel/virtio.c`.  A call allocates its descriptors from one 16-bit
counter that both queues share, links them to a chain, makes the head available and waits until the
device has used it.

| source | here |
| --- | --- |
| `virtq_desc`, `virtq_avail`, `virtq_used`, `blk_last_used_idx` / `gpu_last_used_idx` | `RequestQueue` |
| `global_desc_idx`, `dma_heap_curr`, `blk_mmio_base` | `Driver` |
| `virtio_blk_read_sector`, `virtio_blk_write_sector`, `send_gpu_command`, up to the wait | `virtioBlkReadSector`, `virtioBlkWriteSector`, `sendGpuCommand` |
| behind the wait | `finish` |

The devices are no code of the repository.  A device takes available heads in order (`take`).  It
completes a chain that it holds once: it has read the readable descriptors, fills the writable ones
and puts the head on the used ring (`complete`).  A block device always fills them, the last byte
being the status; a GPU writes at least the type of its response.  What a chain was and what the
device has read and written is noted in `Served`.

Cache maintenance and the notification register are left out: the queues stand in the DMA heap,
which `mmu_init` maps as device memory, so that the device sees what the driver has written.
Between two calls the kernel may do anything with memory and the heap (`elsewhere`).
-/

import AiOsExchange.Lib.Run
import AiOsExchange.Virtio.Heap
import AiOsExchange.Virtio.Queue

namespace AiOsExchange
namespace Virtio

open CMemory

/-- `virtq_desc`. -/
structure VirtqDesc where
  addr : ℕ
  len : ℕ
  flags : ℕ
  next : ℕ
  deriving DecidableEq

/-- `VIRTQ_DESC_F_NEXT`. -/
def virtqDescFNext : ℕ := 1

/-- `VIRTQ_DESC_F_WRITE`. -/
def virtqDescFWrite : ℕ := 2

/-- The descriptor has a next one. -/
def VirtqDesc.linked (x : VirtqDesc) : Bool := x.flags &&& virtqDescFNext != 0

/-- The device writes to the buffer of the descriptor. -/
def VirtqDesc.writable (x : VirtqDesc) : Bool := x.flags &&& virtqDescFWrite != 0

/-- A request queue with the private counters of both sides. -/
structure RequestQueue where
  desc : ℕ → VirtqDesc
  availRing : ℕ → ℕ
  availIdx : ℕ
  usedRing : ℕ → VirtqUsedElem
  usedIdx : ℕ
  lastUsedIdx : ℕ
  lastAvailIdx : ℕ
  held : List ℕ

namespace RequestQueue

/-- A queue as `setup_virtqueue` leaves it. -/
def init : RequestQueue where
  desc _ := ⟨0, 0, 0, 0⟩
  availRing _ := 0
  availIdx := 0
  usedRing _ := ⟨0, 0⟩
  usedIdx := 0
  lastUsedIdx := 0
  lastAvailIdx := 0
  held := []

/-! ### The driver's side -/

def setDesc (i : ℕ) (x : VirtqDesc) (q : RequestQueue) : RequestQueue :=
  { q with desc := Function.update q.desc i x }

/-- The head goes to the available ring. -/
def publish (head : ℕ) (q : RequestQueue) : RequestQueue :=
  { q with
    availRing := Function.update q.availRing (q.availIdx % virtqSize) head
    availIdx := nextIdx q.availIdx }

/-- `last_used_idx++`. -/
def advance (q : RequestQueue) : RequestQueue := { q with lastUsedIdx := nextIdx q.lastUsedIdx }

/-! ### The device's side -/

/-- The device takes the next available head. -/
def take (q : RequestQueue) : RequestQueue :=
  if q.lastAvailIdx ≠ q.availIdx then
    { q with
      lastAvailIdx := nextIdx q.lastAvailIdx
      held := q.held ++ [q.availRing (q.lastAvailIdx % virtqSize)] }
  else q

/-- The head goes to the used ring, with the number of bytes written. -/
def give (head len : ℕ) (q : RequestQueue) : RequestQueue :=
  { q with
    usedRing := Function.update q.usedRing (q.usedIdx % virtqSize) ⟨head, len⟩
    usedIdx := nextIdx q.usedIdx
    held := q.held.erase head }

/-- The descriptors from `d` on, at most `fuel` of them. -/
def chainFrom (desc : ℕ → VirtqDesc) : ℕ → ℕ → List ℕ
  | 0, _ => []
  | fuel + 1, d => d :: if (desc d).linked then chainFrom desc fuel (desc d).next else []

/-- The chain of a head. -/
def chain (q : RequestQueue) (head : ℕ) : List ℕ := chainFrom q.desc virtqSize head

def descsOf (q : RequestQueue) (head : ℕ) : List VirtqDesc := (q.chain head).map q.desc

/-- The heads that the device has not completed. -/
def outstanding (q : RequestQueue) : List ℕ :=
  q.held ++ Rings.between virtqSize idxRange q.availRing q.lastAvailIdx q.availIdx

end RequestQueue

/-- The bytes a device reads of a chain. -/
def readBy (mem : Buf) (descs : List VirtqDesc) : List UInt8 :=
  (descs.filter fun x => !x.writable).flatMap fun x => bytesAt mem x.addr x.len

/-- The bytes a device can write to it. -/
def roomOf (descs : List VirtqDesc) : ℕ := ((descs.filter VirtqDesc.writable).map VirtqDesc.len).sum

/-- Memory with the writable buffers filled, as far as the bytes go. -/
def fill : List VirtqDesc → List UInt8 → Buf → Buf
  | [], _, mem => mem
  | x :: descs, l, mem =>
      if x.writable then fill descs (l.drop x.len) (put mem x.addr (l.take x.len))
      else fill descs l mem

/-! ### The driver -/

/-- The two devices with a request queue. -/
inductive Device
  | blk | gpu
  deriving DecidableEq

/-- The queues, the counters they share and memory. -/
structure Driver where
  queue : Device → RequestQueue
  globalDescIdx : ℕ
  dmaHeapCurr : ℕ
  blkMmioBase : ℕ
  memory : Buf

/-- The requests, with their arguments. -/
inductive Request
  | readSector (sector buffer : ℕ)
  | writeSector (sector buffer : ℕ)
  | gpuCommand (requestPhys requestSize responsePhys responseSize : ℕ)
  deriving DecidableEq

def Request.device : Request → Device
  | .readSector _ _ => .blk
  | .writeSector _ _ => .blk
  | .gpuCommand _ _ _ _ => .gpu

/-- A call that waits: the head of its chain, where it will find its status, and the pointer of the
heap before it. -/
structure Call where
  request : Request
  head : ℕ
  statusPtr : ℕ
  heapSave : ℕ

namespace Driver

/-- The driver before its first request. -/
def init (curr blkMmioBase : ℕ) (memory : Buf) : Driver where
  queue _ := .init
  globalDescIdx := 0
  dmaHeapCurr := curr
  blkMmioBase := blkMmioBase
  memory := memory

def onQueue (dev : Device) (f : RequestQueue → RequestQueue) (d : Driver) : Driver :=
  { d with queue := Function.update d.queue dev (f (d.queue dev)) }

/-- What a call for a device tests first; `send_gpu_command` has no test. -/
def admits (d : Driver) : Device → Bool
  | .blk => d.blkMmioBase != 0
  | .gpu => true

def store (addr : ℕ) (l : List UInt8) (d : Driver) : Driver :=
  { d with memory := put d.memory addr l }

/-- `bump_allocate` with the zeroing of the block. -/
def bumpAlloc (size align : ℕ) (d : Driver) : ℕ × Driver :=
  let (block, curr) := bumpAllocate size align d.dmaHeapCurr
  (block.addr, { d with
    dmaHeapCurr := curr
    memory := put d.memory block.addr (List.replicate size 0) })

/-- `global_desc_idx++ % VIRTQ_SIZE`. -/
def nextDesc (d : Driver) : ℕ × Driver :=
  (d.globalDescIdx % virtqSize, { d with globalDescIdx := nextIdx d.globalDescIdx })

end Driver

/-- `VIRTIO_BLK_T_IN`. -/
def virtioBlkTIn : ℕ := 0

/-- `VIRTIO_BLK_T_OUT`. -/
def virtioBlkTOut : ℕ := 1

/-- `VIRTIO_BLK_S_OK`. -/
def virtioBlkSOk : UInt8 := 0

/-- A block request up to its wait, by its type and the flags of its data. -/
def blkRequest (type dataFlags sector buffer : ℕ) (request : Request) (d : Driver) : Call × Driver :=
  let heapSave := d.dmaHeapCurr
  let (req, d) := d.bumpAlloc 16 16
  let d := d.store req (toLE 4 type)
  let d := d.store (req + 8) (toLE 8 sector)
  let (statusPtr, d) := d.bumpAlloc 1 1
  let d := d.store statusPtr [0xFF]
  let (d0, d) := d.nextDesc
  let (d1, d) := d.nextDesc
  let (d2, d) := d.nextDesc
  let d := d.onQueue .blk fun q =>
    ((q.setDesc d0 ⟨req, 16, virtqDescFNext, d1⟩).setDesc d1 ⟨buffer, 512, dataFlags, d2⟩).setDesc d2
      ⟨statusPtr, 1, virtqDescFWrite, 0⟩
  (⟨request, d0, statusPtr, heapSave⟩, d.onQueue .blk (.publish d0))

/-- `virtio_blk_read_sector` behind its test for a device, up to the wait. -/
def virtioBlkReadSector (sector buffer : ℕ) : Driver → Call × Driver :=
  blkRequest virtioBlkTIn (virtqDescFNext ||| virtqDescFWrite) sector buffer
    (.readSector sector buffer)

/-- `virtio_blk_write_sector` behind its test for a device, up to the wait. -/
def virtioBlkWriteSector (sector buffer : ℕ) : Driver → Call × Driver :=
  blkRequest virtioBlkTOut virtqDescFNext sector buffer (.writeSector sector buffer)

/-- `send_gpu_command` up to its wait; it allocates nothing. -/
def sendGpuCommand (requestPhys requestSize responsePhys responseSize : ℕ) (d : Driver) :
    Call × Driver :=
  let heapSave := d.dmaHeapCurr
  let (d0, d) := d.nextDesc
  let (d1, d) := d.nextDesc
  let d := d.onQueue .gpu fun q =>
    (q.setDesc d0 ⟨requestPhys, requestSize, virtqDescFNext, d1⟩).setDesc d1
      ⟨responsePhys, responseSize, virtqDescFWrite, 0⟩
  (⟨.gpuCommand requestPhys requestSize responsePhys responseSize, d0, responsePhys, heapSave⟩,
    d.onQueue .gpu (.publish d0))

/-- The call of a request up to its wait. -/
def Request.submit : Request → Driver → Call × Driver
  | .readSector sector buffer => virtioBlkReadSector sector buffer
  | .writeSector sector buffer => virtioBlkWriteSector sector buffer
  | .gpuCommand requestPhys requestSize responsePhys responseSize =>
      sendGpuCommand requestPhys requestSize responsePhys responseSize

/-- What a call returns: the status of a block request, the type of a GPU's response. -/
def Call.result (c : Call) (mem : Buf) : ℤ :=
  match c.request.device with
  | .blk => if mem c.statusPtr = virtioBlkSOk then 0 else -1
  | .gpu => u32 mem c.statusPtr

/-- A call behind its wait: the counter moves on, and a block request gives the heap back. -/
def finish (c : Call) (d : Driver) : ℤ × Driver :=
  let d := d.onQueue c.request.device .advance
  (c.result d.memory, match c.request.device with
    | .blk => { d with dmaHeapCurr := c.heapSave }
    | .gpu => d)

/-! ### Driver and devices -/

/-- What became of a chain: its descriptors, the bytes the device has read and those it has
written. -/
structure Served where
  device : Device
  descs : List VirtqDesc
  read : List UInt8
  written : List UInt8

/-- The status the device has given. -/
def Served.status (x : Served) : ℤ :=
  match x.device with
  | .blk => if x.written.getLast? = some virtioBlkSOk then 0 else -1
  | .gpu => ofLE (x.written.take 4)

/-- A device completes a chain with room for so many bytes by writing these. -/
def Device.Writes (room : ℕ) (l : List UInt8) : Device → Prop
  | .blk => l.length = room
  | .gpu => 4 ≤ l.length ∧ l.length ≤ room

instance (room : ℕ) (l : List UInt8) (dev : Device) : Decidable (dev.Writes room l) :=
  match dev with
  | .blk => inferInstanceAs (Decidable (_ = _))
  | .gpu => inferInstanceAs (Decidable (_ ∧ _))

/-- The driver, the call that waits, what the devices have served and what the calls have
returned. -/
structure Lockstep where
  driver : Driver
  call : Option Call
  served : List Served
  returned : List (Request × ℤ)

/-- What the driver, the devices and the rest of the kernel do. -/
inductive RequestOp
  | call (request : Request)
  | poll
  | take (dev : Device)
  | complete (dev : Device) (head : ℕ) (written : List UInt8)
  | elsewhere (curr : ℕ) (memory : Buf)

namespace Lockstep

/-- A call that is begun; a block request without a device returns at once. -/
def begin (r : Request) (s : Lockstep) : Lockstep :=
  if s.driver.admits r.device then
    { s with call := some (r.submit s.driver).1, driver := (r.submit s.driver).2 }
  else { s with returned := s.returned ++ [(r, -1)] }

/-- The wait of a call looks at the used index once. -/
def wait (c : Call) (s : Lockstep) : Lockstep :=
  let q := s.driver.queue c.request.device
  if q.usedIdx = q.lastUsedIdx then s
  else
    { s with
      driver := (finish c s.driver).2
      call := none
      returned := s.returned ++ [(c.request, (finish c s.driver).1)] }

/-- A device completes a chain that it holds. -/
def serve (dev : Device) (head : ℕ) (written : List UInt8) (s : Lockstep) : Lockstep :=
  let q := s.driver.queue dev
  let descs := q.descsOf head
  if head ∈ q.held ∧ dev.Writes (roomOf descs) written then
    { s with
      driver := { s.driver.onQueue dev (.give head written.length) with
        memory := fill descs written s.driver.memory }
      served := s.served ++ [⟨dev, descs, readBy s.driver.memory descs, written⟩] }
  else s

/-- The kernel moves the heap's pointer and writes memory. -/
def elsewhere (curr : ℕ) (memory : Buf) (s : Lockstep) : Lockstep :=
  { s with driver := { s.driver with dmaHeapCurr := curr % 2 ^ 64, memory := memory } }

/-- One step.  While a call waits the kernel does nothing else. -/
def step (s : Lockstep) : RequestOp → Lockstep
  | .call r => match s.call with
    | none => s.begin r
    | some _ => s
  | .poll => match s.call with
    | none => s
    | some c => s.wait c
  | .take dev => { s with driver := s.driver.onQueue dev .take }
  | .complete dev head written => s.serve dev head written
  | .elsewhere curr memory => match s.call with
    | none => s.elsewhere curr memory
    | some _ => s

/-- The driver between calls, before any. -/
def start (d : Driver) : Lockstep := ⟨d, none, [], []⟩

end Lockstep

end Virtio
end AiOsExchange
