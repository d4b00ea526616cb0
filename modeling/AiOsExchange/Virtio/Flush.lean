/-
# What the devices are shown

The drivers of `kernel/virtio.c` and `kernel/virtio_net.c` clean cache lines (`cache_flush`) before
they tell a device about a request.  Here the accesses of the five places that submit something are
listed in the order of the source, with their addresses.

| source | here |
| --- | --- |
| `cache_flush` | `cacheFlush`, the lines its loop cleans |
| `setup_virtqueue`, the addresses | `QueueMemory`, `setupVirtqueue` |
| `virtio_blk_read_sector`, `virtio_blk_write_sector`, `send_gpu_command`, up to the wait | `Request.traced` |
| the ends of `virtio_input_poll`, `virtio_net_poll_rx` | `inputRecycleTrace`, `netRecycleTrace` |

The requests run on the driver as they do without a trace (`traced_driver`).  A device reads the
readable buffers of the chain, its descriptors, the slot of the available ring and the available
index (`Submission.deviceReads`).

Three descriptors in a row are cleaned as if the ring did not end: at its end the range runs into
the available ring, and the descriptors that wrapped to the start are left.  A block read does not
clean its slot of the available ring, which is in the line of the index only for the first thirty.
The keyboard cleans a line at the address that the slot's content is.  As long as the DMA heap is
mapped as device memory, none of this is noticed.
-/

import AiOsExchange.Lib.Coherence
import AiOsExchange.Virtio.Lockstep

namespace AiOsExchange
namespace Virtio

open CMemory Coherence

/-! ### `cache_flush` -/

/-- `for (uint64_t p = start; p < end; p += 64)`. -/
def flushLoop : ℕ → ℕ → ℕ → List ℕ
  | 0, _, _ => []
  | fuel + 1, p, stop => if p < stop then p :: flushLoop fuel ((p + 64) % 2 ^ 64) stop else []

/-- `cache_flush`: the addresses it gives to `dc cvac`. -/
def cacheFlush (r : Region) : List ℕ :=
  flushLoop (r.len / 64 + 2) (r.addr &&& (2 ^ 64 - 1 - 63)) ((r.addr + r.len) % 2 ^ 64)

/-- The loop stops at the end. -/
theorem mem_flushLoop {fuel n stop p : ℕ} (hstop : stop + 64 ≤ 2 ^ 64)
    (hfuel : stop < 64 * (n + fuel)) :
    p ∈ flushLoop fuel (64 * n) stop ↔ ∃ k, n ≤ k ∧ p = 64 * k ∧ p < stop := by
  induction fuel generalizing n with
  | zero =>
      refine iff_of_false List.not_mem_nil ?_
      rintro ⟨k, hk, rfl, hlt⟩
      omega
  | succ fuel ih =>
      rw [flushLoop]
      split_ifs with hlt
      · have hnext : (64 * n + 64) % 2 ^ 64 = 64 * (n + 1) := by
          rw [Nat.mod_eq_of_lt (by omega)]
          omega
        rw [hnext, List.mem_cons, ih (by omega)]
        constructor
        · rintro (rfl | ⟨k, hk, rfl, hp⟩)
          · exact ⟨n, le_rfl, rfl, hlt⟩
          · exact ⟨k, by omega, rfl, hp⟩
        · rintro ⟨k, hk, rfl, hp⟩
          rcases hk.eq_or_lt with rfl | hk
          · exact .inl rfl
          · exact .inr ⟨k, hk, rfl, hp⟩
      · refine iff_of_false List.not_mem_nil ?_
        rintro ⟨k, hk, rfl, hp⟩
        omega

/-- **`cache_flush` cleans the lines of its range**, from the one of the first byte to the one of
the last. -/
theorem cleans_iff {r : Region} (hr : r.addr + r.len + 64 ≤ 2 ^ 64) (b : ℕ) :
    Cleans 64 cacheFlush r b ↔ r.addr / 64 ≤ b / 64 ∧ b / 64 * 64 < r.addr + r.len := by
  have hstart : r.addr &&& (2 ^ 64 - 1 - 63) = 64 * (r.addr / 64) := by
    rw [show 2 ^ 64 - 1 - 63 = 2 ^ 64 - 1 - (2 ^ 6 - 1) by omega,
      and_not_low 6 (by omega) (show r.addr < 2 ^ 64 by omega)]
    omega
  rw [Cleans, cacheFlush, hstart, Nat.mod_eq_of_lt (by omega), mem_flushLoop hr (by omega)]
  constructor
  · rintro ⟨k, hk, hp, hlt⟩
    omega
  · rintro ⟨h1, h2⟩
    exact ⟨b / 64, h1, Nat.mul_comm _ _, h2⟩

/-- The bytes of a range are cleaned. -/
theorem cleans_of_has {r : Region} (hr : r.addr + r.len + 64 ≤ 2 ^ 64) {b : ℕ} (hb : r.Has b) :
    Cleans 64 cacheFlush r b := by
  obtain ⟨h1, h2⟩ := hb
  rw [cleans_iff hr]
  omega

/-- So are those of every region inside it. -/
theorem cleans_of_inside {r x : Region} (hr : r.addr + r.len + 64 ≤ 2 ^ 64) {b : ℕ} (hb : x.Has b)
    (h : r.addr ≤ x.addr ∧ x.addr + x.len ≤ r.addr + r.len) : Cleans 64 cacheFlush r b := by
  obtain ⟨h1, h2⟩ := hb
  exact cleans_of_has hr ⟨by omega, by omega⟩

/-! ### Where the queues are -/

/-- `&avail->idx` of an available ring. -/
def availIdxAddr (avail : ℕ) : ℕ := avail + 2

/-- `&avail->ring[k]`. -/
def availRingAddr (avail k : ℕ) : ℕ := avail + 4 + 2 * k

/-- The tables of a queue, in a block of the DMA heap that starts on a page: 256 descriptors of 16
bytes, behind them the available ring, and on a page of its own the used ring. -/
structure QueueMemory where
  base : ℕ
  stop : ℕ
  aligned : 4096 ∣ base
  heap_le : dmaHeapStart ≤ base
  room : base + 2 * 4096 ≤ stop
  stop_lt : stop < 2 ^ 63

namespace QueueMemory

variable (m : QueueMemory)

/-- `&desc[i]`. -/
def descAddr (i : ℕ) : ℕ := m.base + 16 * i

def avail : ℕ := m.base + 16 * 256

end QueueMemory

/-- `total` of `setup_virtqueue`. -/
def virtqueueBytes : ℕ :=
  let descSize := 16 * virtqSize
  let availSize := 6 + 2 * virtqSize
  let pad := 4096 - (descSize + availSize) % 4096
  let usedSize := 6 + 8 * virtqSize
  descSize + availSize + pad + usedSize

theorem virtqueueBlock_eq {curr : ℕ} (h : curr < 2 ^ 62) :
    ∃ k, curr ≤ 4096 * k ∧ 4096 * k < curr + 4096 ∧
      (bumpAllocate virtqueueBytes 4096 curr).1.addr = 4096 * k ∧
      (bumpAllocate virtqueueBytes 4096 curr).2 = 4096 * k + 10246 := by
  obtain ⟨⟨k, haddr⟩, hle, hlt⟩ :=
    alignUp_spec 12 (show 4096 = 2 ^ 12 by decide) (by decide) (show curr + 4096 ≤ 2 ^ 64 by omega)
  have hbytes : virtqueueBytes = 10246 := by decide
  refine ⟨k, by omega, by omega, haddr, ?_⟩
  rw [bumpAllocate, haddr, hbytes]
  show (4096 * k + 10246) % 2 ^ 64 = _
  omega

/-- `setup_virtqueue`, when the heap is at `curr`. -/
def setupVirtqueue (curr : ℕ) (hstart : dmaHeapStart ≤ curr) (hend : curr < 2 ^ 62) : QueueMemory where
  base := (bumpAllocate virtqueueBytes 4096 curr).1.addr
  stop := (bumpAllocate virtqueueBytes 4096 curr).2
  aligned := by
    obtain ⟨k, -, -, haddr, -⟩ := virtqueueBlock_eq hend
    exact ⟨k, haddr⟩
  heap_le := by
    obtain ⟨k, hle, -, haddr, -⟩ := virtqueueBlock_eq hend
    omega
  room := by
    obtain ⟨k, -, -, haddr, hstop⟩ := virtqueueBlock_eq hend
    omega
  stop_lt := by
    obtain ⟨k, -, hlt, -, hstop⟩ := virtqueueBlock_eq hend
    omega

/-! ### Requests, with their accesses -/

/-- The driver and what it has done so far. -/
structure Traced where
  driver : Driver
  trace : List Access

namespace Traced

variable (s : Traced)

def log (accesses : List Access) : Traced := { s with trace := s.trace ++ accesses }

def store (addr : ℕ) (l : List UInt8) : Traced :=
  { s with driver := s.driver.store addr l }.log [.write ⟨addr, l.length⟩]

/-- `bump_allocate` writes its zeros. -/
def bumpAlloc (size align : ℕ) : ℕ × Traced :=
  let (addr, driver) := s.driver.bumpAlloc size align
  (addr, { s with driver := driver }.log [.write ⟨addr, size⟩])

def nextDesc : ℕ × Traced :=
  let (i, driver) := s.driver.nextDesc
  (i, { s with driver := driver })

/-- The four stores to a descriptor. -/
def setDesc (m : QueueMemory) (dev : Device) (i : ℕ) (x : VirtqDesc) : Traced :=
  { s with driver := s.driver.onQueue dev (.setDesc i x) }.log
    [.write ⟨m.descAddr i, 8⟩, .write ⟨m.descAddr i + 8, 4⟩, .write ⟨m.descAddr i + 12, 2⟩,
      .write ⟨m.descAddr i + 14, 2⟩]

/-- `avail->ring[avail_idx % VIRTQ_SIZE] = head`. -/
def setRing (m : QueueMemory) (dev : Device) (head : ℕ) : Traced :=
  { s with
    driver := s.driver.onQueue dev fun q =>
      { q with availRing := Function.update q.availRing (q.availIdx % virtqSize) head } }.log
    [.write ⟨availRingAddr m.avail ((s.driver.queue dev).availIdx % virtqSize), 2⟩]

/-- `avail->idx = avail_idx + 1`. -/
def setIdx (m : QueueMemory) (dev : Device) : Traced :=
  { s with
    driver := s.driver.onQueue dev fun q => { q with availIdx := nextIdx q.availIdx } }.log
    [.write ⟨availIdxAddr m.avail, 2⟩]

def flush (addr size : ℕ) : Traced := s.log [.clean ⟨addr, size⟩]

/-- `*notify_reg = 0`. -/
def notify : Traced := s.log [.notify]

end Traced

/-- A block request up to the slot of the available ring: the address of its header, its first
descriptor, and the slot. -/
def blkChainTraced (m : QueueMemory) (type dataFlags sector buffer : ℕ) (s : Traced) :
    ℕ × ℕ × ℕ × Traced :=
  let (req, s) := s.bumpAlloc 16 16
  let s := s.store req (toLE 4 type)
  let s := s.store (req + 8) (toLE 8 sector)
  let (statusPtr, s) := s.bumpAlloc 1 1
  let s := s.store statusPtr [0xFF]
  let (d0, s) := s.nextDesc
  let (d1, s) := s.nextDesc
  let (d2, s) := s.nextDesc
  let s := s.setDesc m .blk d0 ⟨req, 16, virtqDescFNext, d1⟩
  let s := s.setDesc m .blk d1 ⟨buffer, 512, dataFlags, d2⟩
  let s := s.setDesc m .blk d2 ⟨statusPtr, 1, virtqDescFWrite, 0⟩
  let slot := (s.driver.queue .blk).availIdx % virtqSize
  (req, d0, slot, s.setRing m .blk d0)

/-- `virtio_blk_read_sector`. -/
def virtioBlkReadSectorTraced (m : QueueMemory) (sector buffer : ℕ) (s : Traced) : Traced :=
  let (req, d0, _, s) :=
    blkChainTraced m virtioBlkTIn (virtqDescFNext ||| virtqDescFWrite) sector buffer s
  let s := s.flush req 16
  let s := s.flush (m.descAddr d0) (16 * 3)
  let s := s.setIdx m .blk
  let s := s.flush (availIdxAddr m.avail) 2
  s.notify

/-- `virtio_blk_write_sector`. -/
def virtioBlkWriteSectorTraced (m : QueueMemory) (sector buffer : ℕ) (s : Traced) : Traced :=
  let (req, d0, slot, s) := blkChainTraced m virtioBlkTOut virtqDescFNext sector buffer s
  let s := s.flush req 16
  let s := s.flush buffer 512
  let s := s.flush (m.descAddr d0) (16 * 3)
  let s := s.flush (availRingAddr m.avail slot) 2
  let s := s.setIdx m .blk
  let s := s.flush (availIdxAddr m.avail) 2
  s.notify

/-- `send_gpu_command`. -/
def sendGpuCommandTraced (m : QueueMemory)
    (requestPhys requestSize responsePhys responseSize : ℕ) (s : Traced) : Traced :=
  let (d0, s) := s.nextDesc
  let (d1, s) := s.nextDesc
  let s := s.setDesc m .gpu d0 ⟨requestPhys, requestSize, virtqDescFNext, d1⟩
  let s := s.setDesc m .gpu d1 ⟨responsePhys, responseSize, virtqDescFWrite, 0⟩
  let slot := (s.driver.queue .gpu).availIdx % virtqSize
  let s := s.setRing m .gpu d0
  let s := s.flush requestPhys requestSize
  let s := s.flush (m.descAddr d0) (16 * 2)
  let s := s.flush (availRingAddr m.avail slot) 2
  let s := s.setIdx m .gpu
  let s := s.flush (availIdxAddr m.avail) 2
  s.notify

/-- What the caller has written for the device before the call. -/
def Request.payload : Request → List Region
  | .readSector _ _ => []
  | .writeSector _ buffer => [⟨buffer, 512⟩]
  | .gpuCommand requestPhys requestSize _ _ => [⟨requestPhys, requestSize⟩]

/-- A request with what is done for it, its payload first. -/
def Request.traced (m : QueueMemory) (r : Request) (d : Driver) : Traced :=
  let s : Traced := ⟨d, r.payload.map .write⟩
  match r with
  | .readSector sector buffer => virtioBlkReadSectorTraced m sector buffer s
  | .writeSector sector buffer => virtioBlkWriteSectorTraced m sector buffer s
  | .gpuCommand requestPhys requestSize responsePhys responseSize =>
      sendGpuCommandTraced m requestPhys requestSize responsePhys responseSize s

theorem onQueue_onQueue (dev : Device) (f g : RequestQueue → RequestQueue) (d : Driver) :
    (d.onQueue dev f).onQueue dev g = d.onQueue dev fun q => g (f q) := by
  simp only [Driver.onQueue, Function.update_self, Function.update_idem]

/-- **The accesses are those of the requests**: the driver comes out as without a trace. -/
theorem traced_driver (m : QueueMemory) (r : Request) (d : Driver) :
    (r.traced m d).driver = (r.submit d).2 := by
  cases r <;>
    simp only [Request.traced, Request.submit, virtioBlkReadSectorTraced, virtioBlkReadSector,
      virtioBlkWriteSectorTraced, virtioBlkWriteSector, sendGpuCommandTraced, sendGpuCommand,
      blkChainTraced, blkRequest, Traced.bumpAlloc, Traced.store, Traced.nextDesc, Traced.setDesc,
      Traced.setRing, Traced.setIdx, Traced.flush, Traced.notify, Traced.log, onQueue_onQueue] <;>
    rfl

/-! ### The regions of a submission -/

/-- The stores to a descriptor. -/
def QueueMemory.descFields (m : QueueMemory) (i : ℕ) : List Region :=
  [⟨m.descAddr i, 8⟩, ⟨m.descAddr i + 8, 4⟩, ⟨m.descAddr i + 12, 2⟩, ⟨m.descAddr i + 14, 2⟩]

namespace Request

/-- The chain a request stores. -/
def links (d : Driver) : Request → List (ℕ × VirtqDesc)
  | .readSector _ buffer => blkChain (virtqDescFNext ||| virtqDescFWrite) buffer d
  | .writeSector _ buffer => blkChain virtqDescFNext buffer d
  | .gpuCommand requestPhys requestSize responsePhys responseSize =>
      gpuChain requestPhys requestSize responsePhys responseSize d

variable (m : QueueMemory) (d : Driver) (r : Request)

/-- The slot of the available ring. -/
def slot : Region := ⟨availRingAddr m.avail ((d.queue r.device).availIdx % virtqSize), 2⟩

/-- The header of a block request and the status behind it. -/
def blkHeader : List Region :=
  [⟨alignUp 16 d.dmaHeapCurr, 16⟩, ⟨alignUp 16 d.dmaHeapCurr, 4⟩, ⟨alignUp 16 d.dmaHeapCurr + 8, 8⟩,
    ⟨blkStatusPtr d, 1⟩, ⟨blkStatusPtr d, 1⟩]

/-- What is written before the index. -/
def written : List Region :=
  r.payload ++ (match r.device with | .blk => blkHeader d | .gpu => []) ++
    ((r.links d).map Prod.fst).flatMap m.descFields ++ [r.slot m d]

/-- The ranges that are cleaned before the index is written. -/
def cleaned : List Region :=
  match r with
  | .readSector _ _ =>
      [⟨alignUp 16 d.dmaHeapCurr, 16⟩, ⟨m.descAddr (d.globalDescIdx % virtqSize), 16 * 3⟩]
  | .writeSector _ buffer =>
      [⟨alignUp 16 d.dmaHeapCurr, 16⟩, ⟨buffer, 512⟩,
        ⟨m.descAddr (d.globalDescIdx % virtqSize), 16 * 3⟩, r.slot m d]
  | .gpuCommand requestPhys requestSize _ _ =>
      [⟨requestPhys, requestSize⟩, ⟨m.descAddr (d.globalDescIdx % virtqSize), 16 * 2⟩, r.slot m d]

theorem blkChainTraced_trace (type dataFlags sector buffer : ℕ) (s : Traced) :
    (blkChainTraced m type dataFlags sector buffer s).2.2.2.trace = s.trace ++
      (blkHeader s.driver ++ ((blkChain dataFlags buffer s.driver).map Prod.fst).flatMap m.descFields ++
        [(⟨availRingAddr m.avail ((s.driver.queue .blk).availIdx % virtqSize), 2⟩ : Region)]).map
          .write := by
  simp only [blkChainTraced, Traced.bumpAlloc, Traced.store, Traced.nextDesc, Traced.setDesc,
    Traced.setRing, Traced.log, Driver.bumpAlloc, bumpAllocate, Driver.store, Driver.nextDesc,
    Driver.onQueue, Function.update_self, toLE_length, blkChain, blkHeader, blkStatusPtr,
    QueueMemory.descFields, List.map_cons, List.map_nil, List.flatMap_cons, List.flatMap_nil,
    List.append_assoc, List.cons_append, List.nil_append, RequestQueue.setDesc, List.length_singleton]

/-- **Every request publishes**: its data and its chain, then the index. -/
theorem traced_trace :
    (r.traced m d).trace = publishes (r.written m d) (r.cleaned m d) ⟨availIdxAddr m.avail, 2⟩ := by
  cases r with
  | readSector sector buffer =>
      have h := blkChainTraced_trace m virtioBlkTIn (virtqDescFNext ||| virtqDescFWrite) sector buffer
        ⟨d, []⟩
      simp only [traced, virtioBlkReadSectorTraced, Traced.flush, Traced.setIdx, Traced.notify,
        Traced.log, payload, List.map_nil, h, List.append_assoc, List.nil_append]
      rfl
  | writeSector sector buffer =>
      have h := blkChainTraced_trace m virtioBlkTOut virtqDescFNext sector buffer
        ⟨d, [.write ⟨buffer, 512⟩]⟩
      simp only [traced, virtioBlkWriteSectorTraced, Traced.flush, Traced.setIdx, Traced.notify,
        Traced.log, payload, List.map_cons, List.map_nil, h, List.append_assoc]
      rfl
  | gpuCommand requestPhys requestSize responsePhys responseSize =>
      simp only [traced, sendGpuCommandTraced, Traced.nextDesc, Traced.setDesc, Traced.setRing,
        Traced.setIdx, Traced.flush, Traced.notify, Traced.log, payload, List.append_assoc]
      rfl

/-- What the device reads of a request: the readable buffers of the chain, its descriptors, the slot
and the index. -/
def deviceReads : List Region :=
  let q := (r.submit d).2.queue r.device
  let head := (r.submit d).1.head
  ((q.descsOf head).filter fun x => !x.writable).map (fun x => ⟨x.addr, x.len⟩) ++
    (q.chain head).map (fun i => ⟨m.descAddr i, 16⟩) ++ [r.slot m d, ⟨availIdxAddr m.avail, 2⟩]

/-- The readable buffers. -/
def readable : List Region :=
  match r with
  | .readSector _ _ => [⟨alignUp 16 d.dmaHeapCurr, 16⟩]
  | .writeSector _ buffer => [⟨alignUp 16 d.dmaHeapCurr, 16⟩, ⟨buffer, 512⟩]
  | .gpuCommand requestPhys requestSize _ _ => [⟨requestPhys, requestSize⟩]

theorem submit_queue_eq : (r.submit d).2.queue r.device =
    ((d.queue r.device).setDescs (r.links d)).publish (d.globalDescIdx % virtqSize) := by
  cases r with
  | readSector sector buffer => exact blkRequest_queue ..
  | writeSector sector buffer => exact blkRequest_queue ..
  | gpuCommand requestPhys requestSize responsePhys responseSize => exact sendGpuCommand_queue ..

theorem submit_head : (r.submit d).1.head = d.globalDescIdx % virtqSize := by
  cases r <;> rfl

/-- The chain is the one the request stores. -/
theorem chain_submit :
    ((r.submit d).2.queue r.device).chain (r.submit d).1.head = (r.links d).map Prod.fst ∧
      ((r.submit d).2.queue r.device).descsOf (r.submit d).1.head = (r.links d).map Prod.snd := by
  obtain ⟨h01, h02, h12⟩ := desc_ne d.globalDescIdx
  rw [submit_queue_eq, submit_head]
  cases r with
  | readSector sector buffer =>
      exact RequestQueue.publish_chain _ (by simp [h01, h02, h12])
        (by simp [VirtqDesc.linked, virtqDescFNext, virtqDescFWrite])
        (by simp [VirtqDesc.linked, virtqDescFNext, virtqDescFWrite]) (by simp [virtqSize])
  | writeSector sector buffer =>
      exact RequestQueue.publish_chain _ (by simp [h01, h02, h12])
        (by simp [VirtqDesc.linked, virtqDescFNext])
        (by simp [VirtqDesc.linked, virtqDescFNext, virtqDescFWrite]) (by simp [virtqSize])
  | gpuCommand requestPhys requestSize responsePhys responseSize =>
      exact RequestQueue.publish_chain _ (by simp [h01])
        (by simp [VirtqDesc.linked, virtqDescFNext])
        (by simp [VirtqDesc.linked, virtqDescFNext, virtqDescFWrite]) (by simp [virtqSize])

theorem deviceReads_eq : r.deviceReads m d = r.readable d ++
    ((r.links d).map Prod.fst).map (fun i => ⟨m.descAddr i, 16⟩) ++
      [r.slot m d, ⟨availIdxAddr m.avail, 2⟩] := by
  have hreadable : (((r.links d).map Prod.snd).filter fun x => !x.writable).map
      (fun x => (⟨x.addr, x.len⟩ : Region)) = r.readable d := by
    cases r <;>
      simp [links, blkChain, gpuChain, readable, VirtqDesc.writable, virtqDescFNext, virtqDescFWrite]
  obtain ⟨hchain, hdescs⟩ := r.chain_submit d
  simp only [deviceReads, hchain, hdescs, hreadable]

end Request

/-! ### Submissions -/

/-- The end of `virtio_input_poll`: the slot is given the descriptor, and `cache_flush` is given what
is in the slot. -/
def inputRecycleTrace (m : QueueMemory) (q : VirtQueue VirtioInputEvent) (descIdx : ℕ) :
    List Access :=
  let slot := q.availIdx % virtqSize
  [.write ⟨availRingAddr m.avail slot, 2⟩,
    .clean ⟨(q.recycle virtqSize descIdx).availRing slot, 2⟩,
    .write ⟨availIdxAddr m.avail, 2⟩, .clean ⟨availIdxAddr m.avail, 2⟩, .notify]

/-- `rx_avail`, behind the descriptors in `vq_memory`. -/
def rxAvail (vqMemory : ℕ) : ℕ := vqMemory + queueSize * 16

/-- The end of `virtio_net_poll_rx`. -/
def netRecycleTrace (vqMemory : ℕ) (q : VirtQueue Buf) : List Access :=
  let slot := q.availIdx % queueSize
  [.write ⟨availRingAddr (rxAvail vqMemory) slot, 2⟩,
    .clean ⟨availRingAddr (rxAvail vqMemory) slot, 2⟩,
    .write ⟨availIdxAddr (rxAvail vqMemory), 2⟩, .clean ⟨availIdxAddr (rxAvail vqMemory), 2⟩, .notify]

/-- The places that submit something to a device: a request, and a poll that gives the buffer of a
descriptor back. -/
inductive Submission
  | request (m : QueueMemory) (d : Driver) (r : Request)
  | inputRecycle (m : QueueMemory) (q : VirtQueue VirtioInputEvent) (descIdx : ℕ)
  | netRecycle (vqMemory : ℕ) (q : VirtQueue Buf) (descId : ℕ)

namespace Submission

def trace : Submission → List Access
  | .request m d r => (r.traced m d).trace
  | .inputRecycle m q descIdx => inputRecycleTrace m q descIdx
  | .netRecycle vqMemory q _ => netRecycleTrace vqMemory q

def deviceReads : Submission → List Region
  | .request m d r => r.deviceReads m d
  | .inputRecycle m q descIdx =>
      [⟨m.descAddr (descIdx % idxRange), 16⟩, ⟨availRingAddr m.avail (q.availIdx % virtqSize), 2⟩,
        ⟨availIdxAddr m.avail, 2⟩]
  | .netRecycle vqMemory q descId =>
      [⟨vqMemory + 16 * (descId % idxRange), 16⟩,
        ⟨availRingAddr (rxAvail vqMemory) (q.availIdx % queueSize), 2⟩,
        ⟨availIdxAddr (rxAvail vqMemory), 2⟩]

/-- **Everything the device reads is flushed before it is told**, and nothing else is. -/
structure Flushed (s : Submission) : Prop where
  covered : Covered 64 cacheFlush (fun b => ∃ x ∈ s.deviceReads, x.Has b) s.trace
  addressed : ∀ r, .clean r ∈ s.trace → ∃ x ∈ s.deviceReads, x.addr = r.addr

/-- Where the callers have memory: the queue was set up before the request, and the payload is
neither in the queue nor at the end of the address space. -/
def Placed : Submission → Prop
  | .request m d r => m.stop ≤ d.dmaHeapCurr ∧ d.dmaHeapCurr < 2 ^ 63 ∧
      ∀ x ∈ r.payload, (x.addr + x.len ≤ m.base ∨ m.stop ≤ x.addr) ∧ x.addr + x.len < 2 ^ 63
  | .inputRecycle _ _ _ => True
  | .netRecycle vqMemory _ _ => vqMemory < 2 ^ 63

/-- The descriptors of a request do not wrap, and the slot of a read is in the line of the index. -/
def Clean : Submission → Prop
  | .request _ d (.readSector _ _) =>
      d.globalDescIdx % virtqSize < 254 ∧ (d.queue .blk).availIdx % virtqSize < 30
  | .request _ d (.writeSector _ _) => d.globalDescIdx % virtqSize < 254
  | .request _ d (.gpuCommand _ _ _ _) => d.globalDescIdx % virtqSize < 255
  | .inputRecycle _ _ _ => False
  | .netRecycle _ _ _ => True

end Submission

/-! ### Publishing -/

section
variable {reads written cleaned : List Region} {index : Region}

/-- Cleaning all that the device reads covers it. -/
theorem covered_of_reads (hindex : index.addr + index.len + 64 ≤ 2 ^ 64)
    (h : ∀ x ∈ reads, ∀ b, x.Has b →
      (∃ c ∈ cleaned, Cleans 64 cacheFlush c b) ∨ Cleans 64 cacheFlush index b) :
    Covered 64 cacheFlush (fun b => ∃ x ∈ reads, x.Has b) (publishes written cleaned index) := by
  refine (covered_publishes_iff _ _).2 ⟨fun r _ b _ hb => ?_, fun b hb _ => cleans_of_has hindex hb⟩
  obtain ⟨x, hx, hxb⟩ := hb
  exact h x hx b hxb

/-- A byte that is written, read and not cleaned is not covered. -/
theorem not_covered {b : ℕ} {r x : Region} (hr : r ∈ written) (hrb : r.Has b) (hx : x ∈ reads)
    (hxb : x.Has b)
    (h : ∀ c ∈ index :: cleaned,
      c.addr + c.len + 64 ≤ 2 ^ 64 ∧ (b / 64 < c.addr / 64 ∨ c.addr + c.len ≤ b / 64 * 64)) :
    ¬ Covered 64 cacheFlush (fun b => ∃ x ∈ reads, x.Has b) (publishes written cleaned index) := by
  have hnot (c : Region) (hc : c ∈ index :: cleaned) : ¬ Cleans 64 cacheFlush c b := by
    obtain ⟨hlt, hapart⟩ := h c hc
    rw [cleans_iff hlt]
    omega
  intro hcov
  rcases ((covered_publishes_iff _ _).1 hcov).1 r hr b hrb ⟨x, hx, hxb⟩ with ⟨c, hc, hclean⟩ | hclean
  · exact hnot c (List.mem_cons_of_mem _ hc) hclean
  · exact hnot index (List.mem_cons_self ..) hclean

end

section
variable {m : QueueMemory} {d : Driver}

theorem alignUp_sixteen_bounds {curr : ℕ} (h : curr < 2 ^ 63) :
    curr ≤ alignUp 16 curr ∧ alignUp 16 curr < curr + 16 :=
  (alignUp_spec 4 (by decide) (by decide) (by omega)).2

theorem Submission.Flushed.publishes {r : Request} (h : (Submission.request m d r).Flushed) :
    Covered 64 cacheFlush (fun b => ∃ x ∈ r.deviceReads m d, x.Has b)
      (publishes (r.written m d) (r.cleaned m d) ⟨availIdxAddr m.avail, 2⟩) :=
  r.traced_trace m d ▸ h.covered

/-- **A descriptor that wraps to the start is missed.** -/
theorem not_covered_of_wrap {r : Request} (h0 : 0 ∈ (r.links d).map Prod.fst)
    (h : ∀ c ∈ (⟨availIdxAddr m.avail, 2⟩ : Region) :: r.cleaned m d,
      c.addr + c.len + 64 ≤ 2 ^ 64 ∧ (m.base / 64 < c.addr / 64 ∨ c.addr + c.len ≤ m.base)) :
    ¬ (Submission.request m d r).Flushed := by
  intro hflushed
  obtain ⟨k, hk⟩ := m.aligned
  have hline : m.base / 64 * 64 = m.base := by omega
  refine not_covered (b := m.base) (r := ⟨m.descAddr 0, 8⟩) (x := ⟨m.descAddr 0, 16⟩) ?_ ?_ ?_ ?_ ?_
    hflushed.publishes
  · simp only [Request.written, List.mem_append, List.mem_flatMap]
    exact .inl (.inr ⟨0, h0, List.mem_cons_self ..⟩)
  · simp [Region.Has, QueueMemory.descAddr]
  · rw [r.deviceReads_eq m d]
    exact List.mem_append_left _ (List.mem_append_right _ (List.mem_map.2 ⟨0, h0, rfl⟩))
  · simp [Region.Has, QueueMemory.descAddr]
  · rwa [hline]

/-- Cleaning all that the device reads of a request, at its addresses, flushes it. -/
theorem flushed_of_reads {r : Request}
    (hcover : ∀ x ∈ r.deviceReads m d, ∀ b, x.Has b →
      (∃ c ∈ r.cleaned m d, Cleans 64 cacheFlush c b) ∨
        Cleans 64 cacheFlush ⟨availIdxAddr m.avail, 2⟩ b)
    (haddr : ∀ c ∈ r.cleaned m d, ∃ x ∈ r.deviceReads m d, x.addr = c.addr) :
    (Submission.request m d r).Flushed := by
  have hroom := m.room
  have hstop := m.stop_lt
  constructor
  · show Covered _ _ _ (r.traced m d).trace
    rw [r.traced_trace m d]
    exact covered_of_reads (by simp only [availIdxAddr, QueueMemory.avail]; omega) hcover
  · intro c hc
    have hc' : .clean c ∈ (r.traced m d).trace := hc
    rw [r.traced_trace m d, clean_mem_publishes] at hc'
    rcases hc' with hc' | rfl
    · exact haddr c hc'
    · refine ⟨⟨availIdxAddr m.avail, 2⟩, ?_, rfl⟩
      show _ ∈ r.deviceReads m d
      rw [r.deviceReads_eq m d]
      simp

variable (m) in
/-- Descriptors in a row are cleaned as one range. -/
theorem cleans_desc {head n i b : ℕ} (hn : head + n ≤ virtqSize) (hi : i < n)
    (hb : Region.Has ⟨m.descAddr (head + i), 16⟩ b) :
    Cleans 64 cacheFlush ⟨m.descAddr head, 16 * n⟩ b := by
  have hroom := m.room
  have hstop := m.stop_lt
  have hsize : virtqSize = 256 := rfl
  refine cleans_of_inside ?_ hb ?_ <;> dsimp only [QueueMemory.descAddr] <;> omega

theorem cleans_slot {r : Request} {b : ℕ} (hb : (r.slot m d).Has b) :
    Cleans 64 cacheFlush (r.slot m d) b := by
  have hroom := m.room
  have hstop := m.stop_lt
  have hslot := Nat.mod_lt (d.queue r.device).availIdx (show 0 < virtqSize by decide)
  have hsize : virtqSize = 256 := rfl
  exact cleans_of_has (by dsimp only [Request.slot, availRingAddr, QueueMemory.avail]; omega) hb

theorem cleans_index {b : ℕ} (hb : Region.Has ⟨availIdxAddr m.avail, 2⟩ b) :
    Cleans 64 cacheFlush ⟨availIdxAddr m.avail, 2⟩ b := by
  have hroom := m.room
  have hstop := m.stop_lt
  exact cleans_of_has (by dsimp only [availIdxAddr, QueueMemory.avail]; omega) hb

/-- The number of the next descriptor. -/
theorem nextIdx_mod (n : ℕ) : nextIdx n % virtqSize =
    if n % virtqSize = 255 then 0 else n % virtqSize + 1 := by
  unfold nextIdx idxRange virtqSize
  split_ifs <;> omega

/-- A GPU command. -/
theorem gpuCommand_flushed_iff {requestPhys requestSize responsePhys responseSize : ℕ}
    (h : (Submission.request m d
      (.gpuCommand requestPhys requestSize responsePhys responseSize)).Placed) :
    (Submission.request m d (.gpuCommand requestPhys requestSize responsePhys responseSize)).Flushed ↔
      d.globalDescIdx % virtqSize < 255 := by
  obtain ⟨hstop, hcurr, hpayload⟩ := h
  obtain ⟨hapart, hlt⟩ := hpayload _ (List.mem_singleton_self _)
  dsimp only at hapart hlt
  obtain ⟨k, hk⟩ := m.aligned
  have hroom := m.room
  have hstop_lt := m.stop_lt
  have hslot := Nat.mod_lt (d.queue .gpu).availIdx (show 0 < virtqSize by decide)
  have hhead := Nat.mod_lt d.globalDescIdx (show 0 < virtqSize by decide)
  have hsize : virtqSize = 256 := rfl
  have hnext := nextIdx_mod d.globalDescIdx
  constructor
  · intro hflushed
    by_contra hwrap
    rw [if_pos (by omega)] at hnext
    refine not_covered_of_wrap ?_ ?_ hflushed
    · simp [Request.links, gpuChain, hnext]
    · simp only [Request.cleaned, Request.slot, Request.device, List.mem_cons, List.not_mem_nil,
        or_false, forall_eq_or_imp, forall_eq, availIdxAddr, availRingAddr, QueueMemory.avail,
        QueueMemory.descAddr]
      omega
  · intro hphase
    rw [if_neg (by omega)] at hnext
    refine flushed_of_reads ?_ ?_
    · intro x hx b hb
      rw [Request.deviceReads_eq] at hx
      simp only [Request.readable, Request.links, gpuChain, hnext, List.map_cons, List.map_nil,
        List.mem_append, List.mem_cons, List.not_mem_nil, or_false] at hx
      rcases hx with (rfl | rfl | rfl) | rfl | rfl
      · exact .inl ⟨_, .head _, cleans_of_has (by dsimp only; omega) hb⟩
      · exact .inl ⟨_, .tail _ (.head _), cleans_desc m (n := 2) (i := 0) (by omega) (by decide) hb⟩
      · exact .inl ⟨_, .tail _ (.head _), cleans_desc m (n := 2) (by omega) (by decide) hb⟩
      · exact .inl ⟨_, .tail _ (.tail _ (.head _)), cleans_slot hb⟩
      · exact .inr (cleans_index hb)
    · intro c hc
      rw [Request.deviceReads_eq]
      simp only [Request.cleaned, List.mem_cons, List.not_mem_nil, or_false] at hc
      rcases hc with rfl | rfl | rfl
      · exact ⟨_, by simp [Request.readable], rfl⟩
      · exact ⟨⟨m.descAddr (d.globalDescIdx % virtqSize), 16⟩, by simp [Request.links, gpuChain], rfl⟩
      · exact ⟨_, by simp, rfl⟩

/-- Three descriptors in a row, the last two of which may have wrapped. -/
theorem zero_mem_blkChain {dataFlags buffer : ℕ} (h : ¬ d.globalDescIdx % virtqSize < 254) :
    0 ∈ (blkChain dataFlags buffer d).map Prod.fst := by
  have hlt := Nat.mod_lt d.globalDescIdx (show 0 < virtqSize by decide)
  have hsize : virtqSize = 256 := rfl
  have hnext := nextIdx_mod d.globalDescIdx
  have hnext' := nextIdx_mod (nextIdx d.globalDescIdx)
  simp only [blkChain, List.map_cons, List.map_nil, List.mem_cons, List.not_mem_nil, or_false]
  split_ifs at hnext hnext' <;> omega

/-- Below that they are three in a row. -/
theorem blkChain_ids {dataFlags buffer : ℕ} (h : d.globalDescIdx % virtqSize < 254) :
    (blkChain dataFlags buffer d).map Prod.fst = [d.globalDescIdx % virtqSize,
      d.globalDescIdx % virtqSize + 1, d.globalDescIdx % virtqSize + 2] := by
  have hnext : nextIdx d.globalDescIdx % virtqSize = d.globalDescIdx % virtqSize + 1 := by
    rw [nextIdx_mod, if_neg (by omega)]
  have hnext' : nextIdx (nextIdx d.globalDescIdx) % virtqSize = d.globalDescIdx % virtqSize + 2 := by
    rw [nextIdx_mod, if_neg (by omega), hnext]
  simp only [blkChain, hnext, hnext', List.map_cons, List.map_nil]

/-- A block write. -/
theorem writeSector_flushed_iff {sector buffer : ℕ}
    (h : (Submission.request m d (.writeSector sector buffer)).Placed) :
    (Submission.request m d (.writeSector sector buffer)).Flushed ↔
      d.globalDescIdx % virtqSize < 254 := by
  obtain ⟨hstop, hcurr, hpayload⟩ := h
  obtain ⟨hapart, hlt⟩ := hpayload _ (List.mem_singleton_self _)
  dsimp only at hapart hlt
  obtain ⟨k, hk⟩ := m.aligned
  have hroom := m.room
  have hstop_lt := m.stop_lt
  have hreq := alignUp_sixteen_bounds hcurr
  have hslot := Nat.mod_lt (d.queue .blk).availIdx (show 0 < virtqSize by decide)
  have hhead := Nat.mod_lt d.globalDescIdx (show 0 < virtqSize by decide)
  have hsize : virtqSize = 256 := rfl
  constructor
  · intro hflushed
    by_contra hwrap
    refine not_covered_of_wrap (r := .writeSector sector buffer) (zero_mem_blkChain hwrap) ?_ hflushed
    simp only [Request.cleaned, Request.slot, Request.device, List.mem_cons, List.not_mem_nil,
      or_false, forall_eq_or_imp, forall_eq, availIdxAddr, availRingAddr, QueueMemory.avail,
      QueueMemory.descAddr]
    omega
  · intro hphase
    refine flushed_of_reads ?_ ?_
    · intro x hx b hb
      rw [Request.deviceReads_eq] at hx
      simp only [Request.readable, Request.links, blkChain_ids hphase, List.map_cons, List.map_nil,
        List.mem_append, List.mem_cons, List.not_mem_nil, or_false] at hx
      rcases hx with ((rfl | rfl) | rfl | rfl | rfl) | rfl | rfl
      · exact .inl ⟨_, .head _, cleans_of_has (by dsimp only; omega) hb⟩
      · exact .inl ⟨_, .tail _ (.head _), cleans_of_has (by dsimp only; omega) hb⟩
      · exact .inl ⟨_, .tail _ (.tail _ (.head _)),
          cleans_desc m (n := 3) (i := 0) (by omega) (by decide) hb⟩
      · exact .inl ⟨_, .tail _ (.tail _ (.head _)),
          cleans_desc m (n := 3) (by omega) (by decide) hb⟩
      · exact .inl ⟨_, .tail _ (.tail _ (.head _)),
          cleans_desc m (n := 3) (by omega) (by decide) hb⟩
      · exact .inl ⟨_, .tail _ (.tail _ (.tail _ (.head _))), cleans_slot hb⟩
      · exact .inr (cleans_index hb)
    · intro c hc
      rw [Request.deviceReads_eq]
      simp only [Request.cleaned, List.mem_cons, List.not_mem_nil, or_false] at hc
      rcases hc with rfl | rfl | rfl | rfl
      · exact ⟨_, by simp [Request.readable], rfl⟩
      · exact ⟨_, by simp [Request.readable], rfl⟩
      · exact ⟨⟨m.descAddr (d.globalDescIdx % virtqSize), 16⟩, by simp [Request.links, blkChain], rfl⟩
      · exact ⟨_, by simp, rfl⟩

/-- A block read: its slot is cleaned only with the line of the index. -/
theorem readSector_flushed_iff {sector buffer : ℕ}
    (h : (Submission.request m d (.readSector sector buffer)).Placed) :
    (Submission.request m d (.readSector sector buffer)).Flushed ↔
      d.globalDescIdx % virtqSize < 254 ∧ (d.queue .blk).availIdx % virtqSize < 30 := by
  obtain ⟨hstop, hcurr, -⟩ := h
  obtain ⟨k, hk⟩ := m.aligned
  have hroom := m.room
  have hstop_lt := m.stop_lt
  have hreq := alignUp_sixteen_bounds hcurr
  have hslot := Nat.mod_lt (d.queue .blk).availIdx (show 0 < virtqSize by decide)
  have hhead := Nat.mod_lt d.globalDescIdx (show 0 < virtqSize by decide)
  have hsize : virtqSize = 256 := rfl
  constructor
  · intro hflushed
    have hphase : d.globalDescIdx % virtqSize < 254 := by
      by_contra hwrap
      refine not_covered_of_wrap (r := .readSector sector buffer) (zero_mem_blkChain hwrap) ?_
        hflushed
      simp only [Request.cleaned, List.mem_cons, List.not_mem_nil, or_false, forall_eq_or_imp,
        forall_eq, availIdxAddr, QueueMemory.avail, QueueMemory.descAddr]
      omega
    refine ⟨hphase, ?_⟩
    by_contra hfar
    refine not_covered (r := (Request.readSector sector buffer).slot m d)
      (x := (Request.readSector sector buffer).slot m d)
      (b := ((Request.readSector sector buffer).slot m d).addr) (by simp [Request.written]) ?_ ?_ ?_ ?_
      hflushed.publishes
    · simp [Region.Has, Request.slot]
    · rw [Request.deviceReads_eq]
      simp
    · simp [Region.Has, Request.slot]
    · simp only [Request.cleaned, Request.slot, Request.device, List.mem_cons, List.not_mem_nil,
        or_false, forall_eq_or_imp, forall_eq, availIdxAddr, availRingAddr, QueueMemory.avail,
        QueueMemory.descAddr]
      omega
  · rintro ⟨hphase, hnear⟩
    refine flushed_of_reads ?_ ?_
    · intro x hx b hb
      rw [Request.deviceReads_eq] at hx
      simp only [Request.readable, Request.links, blkChain_ids hphase, List.map_cons, List.map_nil,
        List.mem_append, List.mem_cons, List.not_mem_nil, or_false] at hx
      rcases hx with (rfl | rfl | rfl | rfl) | rfl | rfl
      · exact .inl ⟨_, .head _, cleans_of_has (by dsimp only; omega) hb⟩
      · exact .inl ⟨_, .tail _ (.head _),
          cleans_desc m (n := 3) (i := 0) (by omega) (by decide) hb⟩
      · exact .inl ⟨_, .tail _ (.head _), cleans_desc m (n := 3) (by omega) (by decide) hb⟩
      · exact .inl ⟨_, .tail _ (.head _), cleans_desc m (n := 3) (by omega) (by decide) hb⟩
      · refine .inr ?_
        obtain ⟨hb1, hb2⟩ := hb
        rw [cleans_iff (by dsimp only [availIdxAddr, QueueMemory.avail]; omega)]
        dsimp only [Request.slot, Request.device, availRingAddr, availIdxAddr,
          QueueMemory.avail] at hb1 hb2 ⊢
        omega
      · exact .inr (cleans_index hb)
    · intro c hc
      rw [Request.deviceReads_eq]
      simp only [Request.cleaned, List.mem_cons, List.not_mem_nil, or_false] at hc
      rcases hc with rfl | rfl
      · exact ⟨_, by simp [Request.readable], rfl⟩
      · exact ⟨⟨m.descAddr (d.globalDescIdx % virtqSize), 16⟩, by simp [Request.links, blkChain], rfl⟩

end

/-- **The keyboard flushes another address.**  The slot's content is a descriptor's number, and
nothing the device reads is at an address that small. -/
theorem inputRecycle_not_flushed (m : QueueMemory) (q : VirtQueue VirtioInputEvent) (descIdx : ℕ) :
    ¬ (Submission.inputRecycle m q descIdx).Flushed := by
  intro h
  have hvalue : (q.recycle virtqSize descIdx).availRing (q.availIdx % virtqSize) =
      descIdx % idxRange := Function.update_self ..
  obtain ⟨x, hx, haddr⟩ := h.addressed ⟨descIdx % idxRange, 2⟩
    (by simp [Submission.trace, inputRecycleTrace, hvalue])
  have hlt := Nat.mod_lt descIdx (show 0 < idxRange by decide)
  have hrange : idxRange = 65536 := rfl
  have hheap := m.heap_le
  have hstart : dmaHeapStart = 1342177280 := rfl
  simp only [Submission.deviceReads, List.mem_cons, List.not_mem_nil, or_false] at hx
  dsimp only at haddr
  rcases hx with rfl | rfl | rfl <;>
    simp only [QueueMemory.descAddr, availRingAddr, availIdxAddr, QueueMemory.avail] at haddr <;>
    omega

/-- The network flushes what it writes. -/
theorem netRecycle_flushed {vqMemory : ℕ} (q : VirtQueue Buf) (descId : ℕ) (h : vqMemory < 2 ^ 63) :
    (Submission.netRecycle vqMemory q descId).Flushed := by
  have hslot := Nat.mod_lt q.availIdx (show 0 < queueSize by decide)
  have hsize : queueSize = 8 := rfl
  have htrace : (Submission.netRecycle vqMemory q descId).trace =
      publishes [⟨availRingAddr (rxAvail vqMemory) (q.availIdx % queueSize), 2⟩]
        [⟨availRingAddr (rxAvail vqMemory) (q.availIdx % queueSize), 2⟩]
        ⟨availIdxAddr (rxAvail vqMemory), 2⟩ := rfl
  constructor
  · rw [htrace, covered_publishes_iff]
    constructor
    · intro r hr b hb _
      obtain rfl := List.mem_singleton.1 hr
      exact .inl ⟨_, .head _,
        cleans_of_has (by dsimp only [availRingAddr, rxAvail]; omega) hb⟩
    · intro b hb _
      exact cleans_of_has (by dsimp only [availIdxAddr, rxAvail]; omega) hb
  · intro r hr
    rw [htrace, clean_mem_publishes, List.mem_singleton] at hr
    rcases hr with rfl | rfl
    · exact ⟨_, .tail _ (.head _), rfl⟩
    · exact ⟨_, .tail _ (.tail _ (.head _)), rfl⟩

/-- **What a device is shown.**  A submission flushes everything the device reads of it, and nothing
else, exactly in the phases in which no descriptor wraps and a read has one of the first thirty
slots; on the network always, from the keyboard never. -/
theorem flushed_iff (s : Submission) (h : s.Placed) : s.Flushed ↔ s.Clean := by
  cases s with
  | request m d r =>
      cases r with
      | readSector sector buffer => exact readSector_flushed_iff h
      | writeSector sector buffer => exact writeSector_flushed_iff h
      | gpuCommand requestPhys requestSize responsePhys responseSize =>
          exact gpuCommand_flushed_iff h
  | inputRecycle m q descIdx => exact iff_of_false (inputRecycle_not_flushed m q descIdx) id
  | netRecycle vqMemory q descId => exact iff_of_true (netRecycle_flushed q descId h) trivial

/-- The first queue of the heap. -/
def firstQueue : QueueMemory := setupVirtqueue dmaHeapStart le_rfl (by decide)

/-- The first command to a GPU: its queue, the request and the response, one behind the other. -/
def firstCommand : Submission :=
  .request firstQueue (.init (dmaHeapStart + 10296) 0 fun _ => 0)
    (.gpuCommand (dmaHeapStart + 10248) 24 (dmaHeapStart + 10272) 24)

theorem first_command_flushed : firstCommand.Flushed := by
  refine (flushed_iff firstCommand ?_).2 ?_
  · refine ⟨by decide, by decide, fun x hx => ?_⟩
    obtain rfl := List.mem_singleton.1 hx
    decide
  · show 0 % virtqSize < 255
    decide

/-- A key press is answered with a slot that is not flushed. -/
theorem key_press_not_flushed : ¬ ∀ s : Submission, s.Placed → s.Flushed := by
  intro h
  exact inputRecycle_not_flushed _ _ _ (h (.inputRecycle firstQueue
    (.init virtqSize (fun _ => ⟨0, 0⟩) fun _ => ⟨0, 0, 0⟩) 0) trivial)

end Virtio
end AiOsExchange
