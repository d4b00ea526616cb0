/-
# The blocks of the DMA heap

`bump_allocate` between the snapshots and resets of the drivers (`kernel/virtio.c`), with the bytes
it zeroes.  A reset releases the blocks allocated since its snapshot; what is live is noted beside
the pointer.  An alignment is a power of two below `2 ^ 32`, given by its logarithm.

| source | here |
| --- | --- |
| `bump_allocate(size, align)` | `Arena.bumpAllocate`, its loop `zeroBytes` |
| `heap_save = dma_heap_curr` | `.snapshot` |
| `dma_heap_curr = heap_save` | `.reset` |
| any other store of the kernel or of a device | `.store` |

An empty block is never touched, so aligning it may take the pointer out of the mapped heap: up to
the largest alignment, and not beyond.
-/

import AiOsExchange.Kernel.Arena
import AiOsExchange.Kernel.Display
import AiOsExchange.Lib.Spans

namespace AiOsExchange
namespace Kernel

open Virtio Runs Spans

/-- A block with the alignment it was asked for. -/
structure DmaBlock extends Block where
  alignLog : Fin 32

/-- The addresses of a block. -/
def DmaBlock.bytes (b : DmaBlock) : Set ℕ := Set.Ico b.addr (b.addr + b.size)

/-- `dma_heap_curr`, and the blocks that no reset has released, the last one first. -/
structure Level where
  dmaHeapCurr : ℕ
  live : List DmaBlock

/-- The heap with its snapshots, and the bytes of the memory. -/
structure Arena where
  levels : Marked Level
  bytes : ℕ → UInt8

/-- The heap as it is at the start, over any memory. -/
def Arena.start (bytes : ℕ → UInt8) : Arena := ⟨⟨⟨dmaHeapStart, []⟩, []⟩, bytes⟩

/-- The blocks in use. -/
def Arena.live (s : Arena) : List DmaBlock := s.levels.now.live

/-- A byte that the tables map. -/
def ByteMapped (addr : ℕ) : Prop := dmaHeapStart ≤ addr ∧ addr < dmaHeapEnd

instance (addr : ℕ) : Decidable (ByteMapped addr) := inferInstanceAs (Decidable (_ ∧ _))

/-- The loop of `bump_allocate`, from `addr` on with `n` bytes to go: a store to a byte that is not
mapped faults. -/
def zeroBytes : ℕ → ℕ → (ℕ → UInt8) → Option (ℕ → UInt8)
  | 0, _, bytes => some bytes
  | n + 1, addr, bytes =>
      if ByteMapped addr then zeroBytes n (addr + 1) (Function.update bytes addr 0) else none

/-- `bump_allocate`: the address, and the heap with the new block. -/
def Arena.bumpAllocate (size : UInt32) (alignLog : Fin 32) (s : Arena) : Option (ℕ × Arena) :=
  let r := Virtio.bumpAllocate size.toNat (2 ^ alignLog.val) s.levels.now.dmaHeapCurr
  (zeroBytes size.toNat r.1.addr s.bytes).map fun bytes =>
    (r.1.addr, ⟨{ s.levels with now := ⟨r.2, ⟨r.1, alignLog⟩ :: s.live⟩ }, bytes⟩)

/-- What happens to the heap. -/
inductive ArenaOp
  | bumpAllocate (size : UInt32) (alignLog : Fin 32)
  | snapshot
  | reset
  | store (addr : ℕ) (value : UInt8)

/-- One step: none where the allocation faults, or where a reset has no snapshot. -/
def Arena.step (s : Arena) : ArenaOp → Option Arena
  | .bumpAllocate size alignLog => (s.bumpAllocate size alignLog).map Prod.snd
  | .snapshot => some { s with levels := s.levels.mark }
  | .reset => s.levels.back.map fun levels => { s with levels := levels }
  | .store addr value => some { s with bytes := Function.update s.bytes addr value }

/-! ### Zeroing -/

/-- **The loop zeroes the block and nothing else**, or faults if a byte is not mapped. -/
theorem zeroBytes_eq (n addr : ℕ) (bytes : ℕ → UInt8) :
    zeroBytes n addr bytes = if Mapped ⟨addr, n⟩ then
      some fun a => if addr ≤ a ∧ a < addr + n then 0 else bytes a else none := by
  induction n generalizing addr bytes with
  | zero =>
      rw [zeroBytes, if_pos (.inl rfl)]
      refine congrArg some (funext fun a => ?_)
      rw [if_neg (by omega)]
  | succ n ih =>
      rw [zeroBytes, ih]
      by_cases hb : ByteMapped addr
      · have hmap : Mapped ⟨addr + 1, n⟩ ↔ Mapped ⟨addr, n + 1⟩ := by
          simp only [Mapped, ByteMapped] at hb ⊢
          omega
        rw [if_pos hb]
        refine if_congr hmap (congrArg some (funext fun a => ?_)) rfl
        rcases eq_or_ne a addr with rfl | ha
        · rw [if_neg (by omega), if_pos (by omega), Function.update_self]
        · rw [Function.update_of_ne ha]
          exact if_congr (by omega) rfl rfl
      · have hmap : ¬Mapped ⟨addr, n + 1⟩ := by
          simp only [Mapped, ByteMapped] at hb ⊢
          omega
        rw [if_neg hb, if_neg hmap]

/-! ### One allocation -/

/-- **Where a block starts**: at a multiple of its alignment, and not below the pointer. -/
theorem block_start {k curr : ℕ} (hk : k ≤ 31) (hcurr : curr ≤ 2 ^ 31) :
    2 ^ k ∣ alignUp (2 ^ k) curr ∧ curr ≤ alignUp (2 ^ k) curr ∧
      alignUp (2 ^ k) curr ≤ 2 ^ 31 := by
  have hle : 2 ^ k ≤ 2 ^ 31 := Nat.pow_le_pow_right (by omega) hk
  obtain ⟨hdvd, hcurr', -⟩ := alignUp_spec k rfl (by omega) (show curr + 2 ^ k ≤ 2 ^ 64 by omega)
  exact ⟨hdvd, hcurr', alignUp_le k rfl (by omega) (pow_dvd_pow 2 hk) hcurr (by omega)⟩

/-- **The blocks of a level**: each is aligned, and they lie apart below the pointer. -/
structure Level.Sound (l : Level) : Prop where
  start_le : dmaHeapStart ≤ l.dmaHeapCurr
  curr_le : l.dmaHeapCurr ≤ 2 ^ 31
  under : Under l.dmaHeapCurr (l.live.map DmaBlock.bytes)
  aligned : ∀ b ∈ l.live, 2 ^ b.alignLog.val ∣ b.addr

/-- Every level that the run may go back to is sound. -/
def Arena.Sound (s : Arena) : Prop := s.levels.Forall Level.Sound

theorem Arena.sound_start (bytes : ℕ → UInt8) : (Arena.start bytes).Sound := by
  have hle : dmaHeapStart ≤ 2 ^ 31 := by
    rw [dmaHeapStart]
    omega
  exact ⟨⟨le_rfl, hle, under_nil _, by simp [Arena.start]⟩, by simp [Arena.start]⟩

/-- What an allocation that comes back has done. -/
structure Allocated (size : UInt32) (alignLog : Fin 32) (s : Arena) (addr : ℕ) (s' : Arena) :
    Prop where
  addr_eq : addr = alignUp (2 ^ alignLog.val) s.levels.now.dmaHeapCurr
  curr_eq : s'.levels.now.dmaHeapCurr = (addr + size.toNat) % 2 ^ 64
  live_eq : s'.live = ⟨⟨addr, size.toNat⟩, alignLog⟩ :: s.live
  marks_eq : s'.levels.marks = s.levels.marks
  mapped : Mapped ⟨addr, size.toNat⟩
  bytes_eq : s'.bytes = fun a => if addr ≤ a ∧ a < addr + size.toNat then 0 else s.bytes a

theorem allocated {size : UInt32} {alignLog : Fin 32} {s s' : Arena} {addr : ℕ}
    (h : s.bumpAllocate size alignLog = some (addr, s')) : Allocated size alignLog s addr s' := by
  simp only [Arena.bumpAllocate, zeroBytes_eq, Option.map_eq_some_iff] at h
  obtain ⟨bytes, hbytes, heq⟩ := h
  obtain ⟨rfl, rfl⟩ := Prod.mk.inj heq
  split_ifs at hbytes with hmap
  exact ⟨rfl, rfl, rfl, rfl, hmap, (Option.some.inj hbytes).symm⟩

section
variable {size : UInt32} {alignLog : Fin 32} {s s' : Arena} {addr : ℕ}

/-- A block starts at a multiple of its alignment, not below the pointer, and the pointer is then
behind it. -/
theorem Allocated.bounds (h : Allocated size alignLog s addr s') (hs : s.Sound) :
    2 ^ alignLog.val ∣ addr ∧ s.levels.now.dmaHeapCurr ≤ addr ∧ addr + size.toNat ≤ 2 ^ 31 ∧
      s'.levels.now.dmaHeapCurr = addr + size.toNat := by
  obtain ⟨hdvd, hle, hmax⟩ := block_start (Nat.le_of_lt_succ alignLog.isLt) hs.1.curr_le
  rw [← h.addr_eq] at hdvd hle hmax
  have hend : addr + size.toNat ≤ 2 ^ 31 := by
    rcases h.mapped with hzero | ⟨-, hend⟩
    · simp only at hzero
      omega
    · simp only [dmaHeapEnd] at hend
      omega
  refine ⟨hdvd, hle, hend, ?_⟩
  rw [h.curr_eq, Nat.mod_eq_of_lt (by omega)]

/-- **A new block meets no live one.** -/
theorem Allocated.disjoint (h : Allocated size alignLog s addr s') (hs : s.Sound) :
    ∀ b ∈ s.live, Disjoint (Set.Ico addr (addr + size.toNat)) b.bytes := fun _ hb =>
  hs.1.under.disjoint (List.mem_map_of_mem hb)
    (Set.Ico_subset_Ici_self.trans (Set.Ici_subset_Ici.2 (h.bounds hs).2.1))

/-- **Zeroing it changes no byte of a live one.** -/
theorem Allocated.bytes_of_live (h : Allocated size alignLog s addr s') (hs : s.Sound)
    {b : DmaBlock} (hb : b ∈ s.live) {a : ℕ} (ha : a ∈ b.bytes) : s'.bytes a = s.bytes a := by
  rw [h.bytes_eq]
  exact if_neg fun hnew => Set.disjoint_left.1 (h.disjoint hs b hb) hnew ha

/-- The block is zeroed, and nothing else. -/
theorem Allocated.zeroed (h : Allocated size alignLog s addr s') :
    (∀ a ∈ Set.Ico addr (addr + size.toNat), s'.bytes a = 0) ∧
      ∀ a ∉ Set.Ico addr (addr + size.toNat), s'.bytes a = s.bytes a := by
  rw [h.bytes_eq]
  exact ⟨fun a ha => if_pos ha, fun a ha => if_neg ha⟩

/-- An allocation comes back where its block is mapped. -/
theorem isSome_bumpAllocate_iff : (s.bumpAllocate size alignLog).isSome ↔
    Mapped ⟨alignUp (2 ^ alignLog.val) s.levels.now.dmaHeapCurr, size.toNat⟩ := by
  simp only [Arena.bumpAllocate, Virtio.bumpAllocate, zeroBytes_eq, Option.isSome_map]
  split_ifs with hmap <;> simp [hmap]

theorem Allocated.sound (h : Allocated size alignLog s addr s') (hs : s.Sound) : s'.Sound := by
  obtain ⟨hdvd, hle, hend, hcurr⟩ := h.bounds hs
  have hstart := hs.1.start_le
  refine ⟨⟨by omega, by omega, ?_, ?_⟩, h.marks_eq ▸ hs.2⟩
  · have hlive : s'.levels.now.live = ⟨⟨addr, size.toNat⟩, alignLog⟩ :: s.levels.now.live :=
      h.live_eq
    rw [hlive, hcurr, List.map_cons]
    exact hs.1.under.cons (Set.Ico_subset_Ici_self.trans (Set.Ici_subset_Ici.2 hle))
      Set.Ico_subset_Iio_self (by omega)
  · intro b hb
    have hmem : b ∈ s'.live := hb
    rw [h.live_eq] at hmem
    rcases List.mem_cons.1 hmem with rfl | hold
    · exact hdvd
    · exact hs.1.aligned b hold

end

/-! ### Runs -/

/-- **One step** keeps every level sound. -/
theorem Arena.sound_step (s : Arena) (op : ArenaOp) (s' : Arena) (hs : s.Sound)
    (h : s.step op = some s') : s'.Sound := by
  cases op with
  | bumpAllocate size alignLog =>
      obtain ⟨⟨addr, t⟩, ht, rfl⟩ := Option.map_eq_some_iff.1 h
      exact (allocated ht).sound hs
  | snapshot =>
      obtain rfl := Option.some.inj h
      exact Marked.Forall.mark hs
  | reset =>
      obtain ⟨levels, hback, rfl⟩ := Option.map_eq_some_iff.1 h
      exact Marked.Forall.back hs hback
  | store addr value =>
      obtain rfl := Option.some.inj h
      exact hs

/-- A run from the start keeps every level sound. -/
theorem Arena.sound_run {bytes : ℕ → UInt8} {ops : List ArenaOp} {s : Arena}
    (h : ops.foldlM Arena.step (Arena.start bytes) = some s) : s.Sound :=
  foldlM_keeps Arena.sound_step (Arena.sound_start bytes) h

/-- **No two live blocks overlap.**  After any run of allocations, stores, snapshots and resets, each
reset with a snapshot of its own: every live block starts at a multiple of its alignment, and no two
of them share a byte.  A further allocation comes back where its block is mapped.  It returns a
multiple of its alignment; the block from there on is then live beside the others, shares no byte
with them, and is zeroed, while every other byte stays. -/
theorem dma_blocks_disjoint (bytes : ℕ → UInt8) (ops : List ArenaOp) (s : Arena)
    (h : ops.foldlM Arena.step (Arena.start bytes) = some s) :
    (∀ b ∈ s.live, 2 ^ b.alignLog.val ∣ b.addr) ∧
      s.live.Pairwise (fun b b' => Disjoint b.bytes b'.bytes) ∧
      (∀ size alignLog, (s.bumpAllocate size alignLog).isSome ↔
        Mapped ⟨alignUp (2 ^ alignLog.val) s.levels.now.dmaHeapCurr, size.toNat⟩) ∧
      ∀ size alignLog addr s', s.bumpAllocate size alignLog = some (addr, s') →
        2 ^ alignLog.val ∣ addr ∧ s'.live = ⟨⟨addr, size.toNat⟩, alignLog⟩ :: s.live ∧
          (∀ b ∈ s.live, Disjoint (Set.Ico addr (addr + size.toNat)) b.bytes) ∧
          (∀ a ∈ Set.Ico addr (addr + size.toNat), s'.bytes a = 0) ∧
          (∀ a ∉ Set.Ico addr (addr + size.toNat), s'.bytes a = s.bytes a) ∧
          ∀ b ∈ s.live, ∀ a ∈ b.bytes, s'.bytes a = s.bytes a := by
  have hs := Arena.sound_run h
  refine ⟨hs.1.aligned, List.pairwise_map.1 hs.1.under.apart,
    fun size alignLog => isSome_bumpAllocate_iff, fun size alignLog addr s' hnew => ?_⟩
  have hall := allocated hnew
  obtain ⟨hzero, helse⟩ := hall.zeroed
  exact ⟨(hall.bounds hs).1, hall.live_eq, hall.disjoint hs, hzero, helse,
    fun b hb a ha => hall.bytes_of_live hs hb ha⟩

/-- The blocks of a flush that is interrupted by a transfer, over a queue that stays: those of the
transfer are released, and the others lie apart. -/
theorem flush_blocks_disjoint : ∃ s,
    [.bumpAllocate 40 12, .snapshot, .bumpAllocate 56 3, .bumpAllocate 24 3, .snapshot,
      .bumpAllocate 16 4, .bumpAllocate 1 0, .reset, .bumpAllocate 48 3].foldlM Arena.step
        (Arena.start fun _ => 0xFF) = some s ∧
      s.live.map DmaBlock.toBlock = [⟨0x50000078, 48⟩, ⟨0x50000060, 24⟩, ⟨0x50000028, 56⟩,
        ⟨0x50000000, 40⟩] ∧
      s.live.Pairwise (fun b b' => Disjoint b.bytes b'.bytes) := by
  have hlive : ([.bumpAllocate 40 12, .snapshot, .bumpAllocate 56 3, .bumpAllocate 24 3, .snapshot,
      .bumpAllocate 16 4, .bumpAllocate 1 0, .reset, .bumpAllocate 48 3].foldlM Arena.step
        (Arena.start fun _ => 0xFF)).map (fun s => s.live.map DmaBlock.toBlock) =
      some [⟨0x50000078, 48⟩, ⟨0x50000060, 24⟩, ⟨0x50000028, 56⟩, ⟨0x50000000, 40⟩] := by
    decide +kernel
  obtain ⟨s, hs, hblocks⟩ := Option.map_eq_some_iff.1 hlive
  exact ⟨s, hs, hblocks, (dma_blocks_disjoint _ _ s hs).2.1⟩

/-! ### Faults -/

/-- **An allocation faults where the tables have no translation** for a byte of its block. -/
theorem bumpAllocate_isSome_iff {img : Image} {tables : Memory} (ht : HeapTables img tables)
    {s : Arena} (hs : s.Sound) (size : UInt32) (alignLog : Fin 32) :
    (s.bumpAllocate size alignLog).isSome ↔ ∀ i < size.toNat,
      (walk img tables (alignUp (2 ^ alignLog.val) s.levels.now.dmaHeapCurr + i)).isSome := by
  obtain ⟨-, hle, -⟩ := block_start (Nat.le_of_lt_succ alignLog.isLt) hs.1.curr_le
  have hstart := hs.1.start_le
  rw [isSome_bumpAllocate_iff, walk_block ht (by omega)]
  simp only [Mapped]
  omega

/-! ### The drivers -/

/-- An allocation of a driver, with the bytes it stores before the next one. -/
structure DriverRequest where
  size : UInt32
  alignLog : Fin 32
  stores : List (ℕ × UInt8)

def DriverRequest.ops (r : DriverRequest) : List ArenaOp :=
  .bumpAllocate r.size r.alignLog :: r.stores.map fun w => .store w.1 w.2

/-- A driver: nothing without its device, otherwise its allocations between snapshot and reset. -/
def driverOps (device : Bool) (reqs : List DriverRequest) : List ArenaOp :=
  if device then .snapshot :: (reqs.flatMap DriverRequest.ops ++ [.reset]) else []

/-- The size and the alignment. -/
def DriverRequest.words (r : DriverRequest) : ℕ × ℕ := (r.size.toNat, 2 ^ r.alignLog.val)

/-- Stores move no level. -/
theorem run_stores (stores : List (ℕ × UInt8)) (s : Arena) : ∃ bytes,
    (stores.map fun w => ArenaOp.store w.1 w.2).foldlM Arena.step s = some { s with bytes } := by
  induction stores generalizing s with
  | nil => exact ⟨s.bytes, rfl⟩
  | cons w stores ih => exact ih { s with bytes := Function.update s.bytes w.1 w.2 }

/-- The pointer and the snapshots after an allocation. -/
theorem step_bumpAllocate (size : UInt32) (alignLog : Fin 32) (s : Arena) :
    (s.step (.bumpAllocate size alignLog)).map
        (fun t => (t.levels.now.dmaHeapCurr, t.levels.marks)) =
      (allocate size.toNat (2 ^ alignLog.val) s.levels.now.dmaHeapCurr).map
        (fun curr => (curr, s.levels.marks)) := by
  by_cases hmap : Mapped ⟨alignUp (2 ^ alignLog.val) s.levels.now.dmaHeapCurr, size.toNat⟩
  · have hzero := (zeroBytes_eq _ _ s.bytes).trans (if_pos hmap)
    have hcurr : allocate size.toNat (2 ^ alignLog.val) s.levels.now.dmaHeapCurr = some _ :=
      if_pos hmap
    rw [hcurr]
    simp only [Arena.step, Arena.bumpAllocate, Virtio.bumpAllocate, hzero, Option.map_some]
  · have hzero := (zeroBytes_eq _ _ s.bytes).trans (if_neg hmap)
    have hcurr : allocate size.toNat (2 ^ alignLog.val) s.levels.now.dmaHeapCurr = none :=
      if_neg hmap
    rw [hcurr]
    simp only [Arena.step, Arena.bumpAllocate, Virtio.bumpAllocate, hzero, Option.map_none]

/-- The allocations of a driver move the pointer as `allocateAll` does, and no snapshot. -/
theorem run_requests (reqs : List DriverRequest) (s : Arena) :
    ((reqs.flatMap DriverRequest.ops).foldlM Arena.step s).map
        (fun t => (t.levels.now.dmaHeapCurr, t.levels.marks)) =
      (allocateAll (reqs.map DriverRequest.words) s.levels.now.dmaHeapCurr).map
        (fun curr => (curr, s.levels.marks)) := by
  induction reqs generalizing s with
  | nil => rfl
  | cons r reqs ih =>
      have hstep := step_bumpAllocate r.size r.alignLog s
      rw [List.flatMap_cons, DriverRequest.ops, List.cons_append, List.foldlM_cons,
        List.map_cons, DriverRequest.words, allocateAll]
      cases ha : allocate r.size.toNat (2 ^ r.alignLog.val) s.levels.now.dmaHeapCurr with
      | none =>
          rw [ha, Option.map_none, Option.map_eq_none_iff] at hstep
          rw [hstep]
          rfl
      | some curr =>
          rw [ha, Option.map_some, Option.map_eq_some_iff] at hstep
          obtain ⟨t, ht, heq⟩ := hstep
          obtain ⟨hcurr, hmarks⟩ := Prod.mk.inj heq
          obtain ⟨bytes, hstores⟩ := run_stores r.stores t
          rw [ht, Option.bind_eq_bind, Option.bind_some, List.foldlM_append, hstores,
            Option.bind_eq_bind, Option.bind_some, ih, Option.bind_some, hmarks, hcurr]

/-- **A driver is a snapshot around its allocations**: it comes back exactly if these do, and leaves
every level as it was. -/
theorem run_driver (device : Bool) (reqs : List DriverRequest) (s : Arena) :
    ((driverOps device reqs).foldlM Arena.step s).map Arena.levels =
      (withSnapshot device (reqs.map DriverRequest.words) s.levels.now.dmaHeapCurr).map
        (fun curr => { s.levels with now := ⟨curr, s.live⟩ }) := by
  cases device with
  | false => rfl
  | true =>
      have hreqs := run_requests reqs { s with levels := s.levels.mark }
      have hmark : s.step .snapshot = some { s with levels := s.levels.mark } := rfl
      rw [driverOps, if_pos rfl, List.foldlM_cons, hmark, Option.bind_eq_bind, Option.bind_some,
        List.foldlM_append, withSnapshot, if_pos rfl]
      cases ha : allocateAll (reqs.map DriverRequest.words) s.levels.now.dmaHeapCurr with
      | none =>
          have hnone := hreqs.trans (congrArg _ ha)
          rw [Option.map_none, Option.map_eq_none_iff] at hnone
          rw [hnone]
          rfl
      | some curr =>
          have hsome := hreqs.trans (congrArg _ ha)
          rw [Option.map_some, Option.map_eq_some_iff] at hsome
          obtain ⟨t, ht, heq⟩ := hsome
          have hmarks : t.levels.marks = s.levels.now :: s.levels.marks := (Prod.mk.inj heq).2
          have hback : t.levels.back = some s.levels := by
            rw [Marked.back, hmarks]
          have hreset : t.step .reset = some { t with levels := s.levels } := by
            rw [Arena.step, hback, Option.map_some]
          rw [ht, Option.bind_eq_bind, Option.bind_some, List.foldlM_cons, hreset]
          rfl

/-- `virtio_gpu_flush`, with what it stores behind its allocations. -/
def gpuFlushOps (d : Drivers) (tx respTx flush respFlush : List (ℕ × UInt8)) : List ArenaOp :=
  driverOps (d.gpuMmioBase ≠ 0 && d.activeFbPhys ≠ 0)
    [⟨56, 3, tx⟩, ⟨24, 3, respTx⟩, ⟨48, 3, flush⟩, ⟨24, 3, respFlush⟩]

/-- `virtio_blk_read_sector` and `virtio_blk_write_sector`. -/
def sectorOps (d : Drivers) (req status : List (ℕ × UInt8)) : List ArenaOp :=
  driverOps (d.blkMmioBase ≠ 0) [⟨16, 4, req⟩, ⟨1, 0, status⟩]

theorem run_gpuFlushOps (d : Drivers) (tx respTx flush respFlush : List (ℕ × UInt8)) (s : Arena) :
    ((gpuFlushOps d tx respTx flush respFlush).foldlM Arena.step s).map Arena.levels =
      (virtioGpuFlush d s.levels.now.dmaHeapCurr).map
        (fun curr => { s.levels with now := ⟨curr, s.live⟩ }) :=
  run_driver _ _ s

theorem run_sectorOps (d : Drivers) (req status : List (ℕ × UInt8)) (s : Arena) :
    ((sectorOps d req status).foldlM Arena.step s).map Arena.levels =
      (virtioBlkReadSector d s.levels.now.dmaHeapCurr).map
        (fun curr => { s.levels with now := ⟨curr, s.live⟩ }) :=
  run_driver _ _ s

end Kernel
end AiOsExchange
