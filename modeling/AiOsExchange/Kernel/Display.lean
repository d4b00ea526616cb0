/-
# The display

What the boot allocates and maps, and what the shell then draws to.  `virtio_probe_and_init`
(`kernel/virtio.c`) takes the devices in the order of their slots; `bump_allocate` zeroes each block
at once, so a block that does not fit in the two mapped blocks of the heap faults there and the
boot ends in `fatal_exception_handler`.

| who | takes the size of the screen from |
| --- | --- |
| `gpu_init`, `mmu_map_framebuffer` | the device, in 32 bits |
| `mmu_init_tables` | two blocks of 2 MB for the heap |
| `shell_main` | its own 1280 by 800 |

The boot without a fault is that with room for all blocks (`HeapHolds`).  The shell stores a
thousand pages, so a smaller framebuffer has words outside the pages that are mapped
(`display_works_iff`).
-/

import AiOsExchange.Kernel.Confined
import AiOsExchange.Shell.Terminal

namespace AiOsExchange
namespace Kernel

open Virtio Shell

/-! ### The boot -/

/-- What a slot of the bus has, with what a GPU reports. -/
inductive Device
  | input
  | gpu (width height : ℕ)
  | blk
  | other
  deriving DecidableEq

/-- The kernel while it boots: the memory of the tables, `dma_heap_curr` and the blocks so far. -/
structure Booting where
  mem : Memory
  curr : ℕ
  blocks : List Block

variable (img : Image)

/-- `bump_allocate` with its zeroing: nothing where a byte of the block has no translation. -/
@[irreducible] def allocateBlock (s : Booting) (req : ℕ × ℕ) : Option Booting :=
  let (b, curr) := bumpAllocate req.1 req.2 s.curr
  if ∀ k < b.size, (walk img s.mem (b.addr + k)).isSome then
    some { s with curr := curr, blocks := s.blocks ++ [b] }
  else none

def allocateBlocks : List (ℕ × ℕ) → Booting → Option Booting
  | [], s => some s
  | req :: reqs, s => (allocateBlock img s req).bind (allocateBlocks reqs)

/-- `total` of `setup_virtqueue`, for `VIRTQ_SIZE` 256. -/
def queueTotal : ℕ :=
  let descSize := 16 * 256
  let availSize := 6 + 2 * 256
  let pad := 4096 - (descSize + availSize) % 4096
  let usedSize := 6 + 8 * 256
  descSize + availSize + pad + usedSize

/-- The request of `setup_virtqueue`. -/
def queueRequest : ℕ × ℕ := (queueTotal, 4096)

/-- The queue and the buffers of the input device. -/
def inputRequests : List (ℕ × ℕ) := [queueRequest, (8 * 256, 8)]

/-- The command and response that attach the framebuffer. -/
def attachRequests : List (ℕ × ℕ) := [(48, 8), (24, 8)]

/-- Those that set the scanout, transfer and flush. -/
def scanoutRequests : List (ℕ × ℕ) := [(48, 8), (24, 8), (56, 8), (24, 8), (48, 8), (24, 8)]

/-- `gpu_init`. -/
def gpuInit (width height : ℕ) (s : Booting) : Option Booting :=
  (allocateBlocks img gpuRequests s).bind fun s =>
    let fbPhys := (bumpAllocate (fbSize width height) 4096 s.curr).1.addr
    (allocateBlocks img ((fbSize width height, 4096) :: attachRequests) s).bind fun s =>
      allocateBlocks img scanoutRequests
        { s with mem := mmuMapFramebuffer img fbPhys (fbSize width height) s.mem }

/-- The branches of `virtio_probe_and_init`. -/
def deviceInit (s : Booting) : Device → Option Booting
  | .input => allocateBlocks img inputRequests s
  | .gpu width height => (allocateBlock img s queueRequest).bind (gpuInit img width height)
  | .blk => allocateBlock img s queueRequest
  | .other => some s

/-- `virtio_probe_and_init`. -/
def virtioProbeAndInit : List Device → Booting → Option Booting
  | [], s => some s
  | d :: devices, s => (deviceInit img s d).bind (virtioProbeAndInit devices)

/-- The request and the status byte of a block request. -/
def sectorRequests : List (ℕ × ℕ) := [(16, 16), (1, 1)]

/-- The block request of `fs_fat32_init`, which takes nothing of the heap for good. -/
def readBootSector (devices : List Device) (s : Booting) : Option Booting :=
  if .blk ∈ devices then
    (allocateBlocks img sectorRequests s).map fun s' => { s' with curr := s.curr }
  else some s

/-- `kernel_main`, up to the shell. -/
def kernelMain (devices : List Device) (mem : Memory) : Option Booting :=
  (virtioProbeAndInit img devices ⟨mmuInitTables img mem, dmaHeapStart, []⟩).bind
    (readBootSector img devices)

/-- **The display works**: the boot stops with an error, or its blocks are in the mapped heap and
every word that the shell stores has a page. -/
def DisplayWorks (devices : List Device) (mem : Memory) (font8x8 : ℕ → ℕ → ℕ)
    (framebuffer : ℕ → ℕ) : Prop :=
  ∀ s, kernelMain img devices mem = some s →
    (∀ b ∈ s.blocks, dmaHeapStart ≤ b.addr ∧ b.addr + b.size ≤ dmaHeapEnd) ∧
      ∀ ops, ∀ i ∈ (terminal font8x8 framebuffer ops).written,
        (el0Address img s.mem (0x20000000 + 4 * i)).isSome

/-! ### Room in the heap -/

/-- The blocks of these requests end in the heap. -/
def HeapHolds : List (ℕ × ℕ) → ℕ → Prop
  | [], _ => True
  | req :: reqs, curr =>
      (bumpAllocate req.1 req.2 curr).2 ≤ dmaHeapEnd ∧ HeapHolds reqs (bumpAllocate req.1 req.2 curr).2

instance decidableHeapHolds : ∀ reqs curr, Decidable (HeapHolds reqs curr)
  | [], _ => .isTrue trivial
  | req :: reqs, curr =>
      have := decidableHeapHolds reqs (bumpAllocate req.1 req.2 curr).2
      inferInstanceAs (Decidable (_ ∧ HeapHolds reqs (bumpAllocate req.1 req.2 curr).2))

theorem bumpAllocateAll_append (reqs reqs' : List (ℕ × ℕ)) (curr : ℕ) :
    bumpAllocateAll (reqs ++ reqs') curr = bumpAllocateAll reqs' (bumpAllocateAll reqs curr) := by
  induction reqs generalizing curr with
  | nil => rfl
  | cons req reqs ih => exact ih _

theorem heapHolds_append {reqs reqs' : List (ℕ × ℕ)} {curr : ℕ} :
    HeapHolds (reqs ++ reqs') curr ↔
      HeapHolds reqs curr ∧ HeapHolds reqs' (bumpAllocateAll reqs curr) := by
  induction reqs generalizing curr with
  | nil => exact ⟨fun h => ⟨trivial, h⟩, fun h => h.2⟩
  | cons req reqs ih =>
      rw [List.cons_append, HeapHolds, HeapHolds, ih, and_assoc]
      rfl

/-- What the boot asks of the heap for a device. -/
def deviceRequests : Device → List (ℕ × ℕ)
  | .input => inputRequests
  | .gpu width height => [queueRequest] ++ (gpuRequests ++
      ((fbSize width height, 4096) :: attachRequests ++ scanoutRequests))
  | .blk => [queueRequest]
  | .other => []

/-- What the boot asks of the heap. -/
def bootRequests (devices : List Device) : List (ℕ × ℕ) :=
  devices.flatMap deviceRequests ++ if .blk ∈ devices then sectorRequests else []

/-- The sizes and alignments of the boot. -/
def Request (req : ℕ × ℕ) : Prop := req.1 < 2 ^ 32 ∧ req.2 ∈ [1, 8, 16, 4096]

instance : DecidablePred Request := fun _ => inferInstanceAs (Decidable (_ ∧ _))

theorem request_fb (width height : ℕ) : Request (fbSize width height, 4096) :=
  ⟨Nat.mod_lt _ (Nat.two_pow_pos 32), by simp⟩

theorem request_queue : Request queueRequest := by
  simp [Request, queueRequest, queueTotal]

theorem request_gpu : ∀ req ∈ gpuRequests, Request req := by
  simp [Request, gpuRequests]

theorem request_attach : ∀ req ∈ attachRequests, Request req := by
  simp [Request, attachRequests]

theorem request_scanout : ∀ req ∈ scanoutRequests, Request req := by
  simp [Request, scanoutRequests]

theorem request_sector : ∀ req ∈ sectorRequests, Request req := by
  simp [Request, sectorRequests]

theorem request_input : ∀ req ∈ inputRequests, Request req := by
  simp [Request, inputRequests, queueRequest, queueTotal]

theorem request_device (d : Device) : ∀ req ∈ deviceRequests d, Request req := by
  cases d with
  | input => exact request_input
  | gpu width height =>
      simp only [deviceRequests, List.forall_mem_append, List.forall_mem_cons]
      exact ⟨⟨request_queue, nofun⟩, request_gpu, ⟨request_fb width height, request_attach⟩,
        request_scanout⟩
  | blk => exact List.forall_mem_singleton.2 request_queue
  | other => nofun

/-! ### The mapped heap -/

/-- Entries 1 … 511 of the first table and 128 … 511 of the kernel's, as they are after
`mmu_init_tables`. -/
structure HeapTables (mem : Memory) : Prop where
  l1 : ∀ j < 512, 1 ≤ j → entry img mem .l1 j =
    if j = 1 then tableDescriptor (img.addr .l2Kernel) else 0
  l2Kernel : ∀ j < 512, 128 ≤ j → entry img mem .l2Kernel j =
    if j = 129 then descriptor 0x50200000 attrDevice apRwEl1 descBlock
    else if j = 128 then descriptor 0x50000000 attrDevice apRwEl1 descBlock else 0

variable {img} {mem : Memory} {physAddr n : ℕ}

theorem Filled.heapTables (hf : Filled img physAddr n mem) : HeapTables img mem where
  l1 j hj h1 := by
    rw [hf.l1 j hj, if_neg (by omega)]
  l2Kernel j hj h128 := by
    rw [hf.l2Kernel j hj]
    split_ifs <;> first | rfl | omega

/-- Mapping the framebuffer leaves these entries. -/
theorem entry_mmuMapFramebuffer (size : ℕ) {t : Table} {j : ℕ} (ht : t = .l1 ∨ t = .l2Kernel)
    (hj : j < 512) : entry img (mmuMapFramebuffer img physAddr size mem) t j = entry img mem t j := by
  unfold mmuMapFramebuffer
  split_ifs
  · rfl
  · rcases ht with rfl | rfl <;>
      simp only [entry_mapPages _ _ hj, entry_store _ (show 256 < 512 by omega) hj,
        entry_store _ (show 257 < 512 by omega) hj, reduceCtorEq, false_and, if_false]

theorem HeapTables.mapFramebuffer (h : HeapTables img mem) (physAddr size : ℕ) :
    HeapTables img (mmuMapFramebuffer img physAddr size mem) where
  l1 j hj h1 := by rw [entry_mmuMapFramebuffer size (.inl rfl) hj, h.l1 j hj h1]
  l2Kernel j hj h128 := by rw [entry_mmuMapFramebuffer size (.inr rfl) hj, h.l2Kernel j hj h128]

theorem heapTables_init (mem : Memory) : HeapTables img (mmuInitTables img mem) := by
  have hboot : HeapTables img (bootTables img 4096 0 mem) :=
    (filled_bootTables 0 (by omega)).heapTables
  constructor
  · intro j hj h1
    rw [← hboot.l1 j hj h1, bootTables, entry_mmuMapFramebuffer 0 (.inl rfl) hj]
  · intro j hj h128
    rw [← hboot.l2Kernel j hj h128, bootTables, entry_mmuMapFramebuffer 0 (.inr rfl) hj]

/-- **From the heap on, two blocks are mapped.** -/
theorem walk_heap (h : HeapTables img mem) {va : ℕ} (hva : dmaHeapStart ≤ va) :
    (walk img mem va).isSome ↔ va < dmaHeapEnd := by
  have hbounds := img.addr_lt .l2Kernel
  rw [dmaHeapStart] at hva
  rw [dmaHeapEnd, walk]
  by_cases h39 : va < 2 ^ 39
  · rw [if_pos h39]
    have h1 := h.l1 (va / 2 ^ 30 % 512) (Nat.mod_lt _ (by omega)) (by omega)
    split_ifs at h1 with hgb
    · rw [walkFrom_table h1 (img.tableAligned _) hbounds (List.cons_ne_nil _ _)]
      have h2 := h.l2Kernel (va / 2 ^ 21 % 512) (Nat.mod_lt _ (by omega)) (by omega)
      split_ifs at h2 with h129 h128
      · rw [walkFrom_leaf (f := 1025) h2 rfl (by omega) (by rw [if_neg (List.cons_ne_nil _ _)])
          (by omega) (by omega) (by omega)]
        simp only [Option.isSome_some, true_iff]
        omega
      · rw [walkFrom_leaf (f := 1025) h2 rfl (by omega) (by rw [if_neg (List.cons_ne_nil _ _)])
          (by omega) (by omega) (by omega)]
        simp only [Option.isSome_some, true_iff]
        omega
      · rw [walkFrom_zero h2]
        simp only [Option.isSome_none, Bool.false_eq_true, false_iff]
        omega
    · rw [walkFrom_zero h1]
      simp only [Option.isSome_none, Bool.false_eq_true, false_iff]
      omega
  · rw [if_neg h39]
    simp only [Option.isSome_none, Bool.false_eq_true, false_iff]
    omega

/-- The bytes of a block from the heap on are mapped if it ends in the heap, or has none. -/
theorem walk_block (h : HeapTables img mem) {addr n : ℕ} (haddr : dmaHeapStart ≤ addr) :
    (∀ k < n, (walk img mem (addr + k)).isSome) ↔ n = 0 ∨ addr + n ≤ dmaHeapEnd := by
  constructor
  · intro hall
    rcases Nat.eq_zero_or_pos n with hz | hpos
    · exact .inl hz
    · have hlast := (walk_heap h (by omega)).1 (hall (n - 1) (by omega))
      exact .inr (by omega)
  · rintro (hz | hend) k hk
    · omega
    · exact (walk_heap h (by omega)).2 (by omega)

/-! ### Allocation -/

/-- The tables and the heap of a kernel that boots. -/
structure Ready (img : Image) (s : Booting) : Prop where
  tables : HeapTables img s.mem
  start_le : dmaHeapStart ≤ s.curr
  le_end : s.curr ≤ dmaHeapEnd
  inside : ∀ b ∈ s.blocks, dmaHeapStart ≤ b.addr ∧ b.addr + b.size ≤ dmaHeapEnd

theorem start_le_end : dmaHeapStart ≤ dmaHeapEnd := by
  rw [dmaHeapStart, dmaHeapEnd]
  omega

/-- A block starts in the heap, or at its end, which is a multiple of all the alignments. -/
theorem alignUp_bounds {align curr : ℕ} (halign : align ∈ [1, 8, 16, 4096])
    (hhi : curr ≤ dmaHeapEnd) :
    curr ≤ alignUp align curr ∧ alignUp align curr ≤ dmaHeapEnd := by
  obtain ⟨k, hk, hpow, hdvd⟩ : ∃ k ≤ 12, align = 2 ^ k ∧ align ∣ dmaHeapEnd := by
    rw [dmaHeapEnd]
    simp only [List.mem_cons, List.not_mem_nil, or_false] at halign
    rcases halign with rfl | rfl | rfl | rfl
    · exact ⟨0, by omega, rfl, by omega⟩
    · exact ⟨3, by omega, rfl, by omega⟩
    · exact ⟨4, by omega, rfl, by omega⟩
    · exact ⟨12, by omega, rfl, by omega⟩
  have hle : 2 ^ k ≤ 2 ^ 12 := Nat.pow_le_pow_right (by omega) hk
  rw [dmaHeapEnd] at hdvd hhi ⊢
  exact ⟨(alignUp_spec k hpow (by omega) (by omega)).2.1,
    alignUp_le k hpow (by omega) hdvd hhi (by omega)⟩

section
variable {s : Booting} {req : ℕ × ℕ} {reqs reqs' : List (ℕ × ℕ)} {f g : Booting → Option Booting}
  {M M' : ℕ → Memory → Memory}

/-- The pointer behind a block does not wrap. -/
theorem bumpAllocate_snd {curr : ℕ} (hq : Request req) (hhi : curr ≤ dmaHeapEnd) :
    (bumpAllocate req.1 req.2 curr).2 = alignUp req.2 curr + req.1 := by
  have hb := alignUp_bounds hq.2 hhi
  have hsize := hq.1
  rw [dmaHeapEnd] at hb
  rw [bumpAllocate]
  exact Nat.mod_eq_of_lt (by omega)

/-- Blocks with room leave the pointer in the heap. -/
theorem HeapHolds.bounds {curr : ℕ} (hq : ∀ req ∈ reqs, Request req) (hlo : dmaHeapStart ≤ curr)
    (hhi : curr ≤ dmaHeapEnd) (h : HeapHolds reqs curr) :
    dmaHeapStart ≤ bumpAllocateAll reqs curr ∧ bumpAllocateAll reqs curr ≤ dmaHeapEnd := by
  induction reqs generalizing curr with
  | nil => exact ⟨hlo, hhi⟩
  | cons req reqs ih =>
      have hreq := hq req List.mem_cons_self
      have hle := (alignUp_bounds hreq.2 hhi).1
      have hsnd := bumpAllocate_snd hreq hhi
      exact ih (fun req' hreq' => hq req' (List.mem_cons_of_mem _ hreq')) (by omega) h.1 h.2

/-- **A block that ends in the heap is allocated, any other is a fault.** -/
theorem allocateBlock_eq (hq : Request req) (h : Ready img s) :
    allocateBlock img s req = if (bumpAllocate req.1 req.2 s.curr).2 ≤ dmaHeapEnd then
      some { s with
        curr := (bumpAllocate req.1 req.2 s.curr).2
        blocks := s.blocks ++ [(bumpAllocate req.1 req.2 s.curr).1] }
      else none := by
  have hb := alignUp_bounds hq.2 h.le_end
  have hlo := h.start_le
  unfold allocateBlock
  refine if_congr ((walk_block h.tables (hlo.trans hb.1)).trans ?_) rfl rfl
  rw [bumpAllocate_snd hq h.le_end]
  simp only
  omega

theorem Ready.allocateBlock (h : Ready img s) (hq : Request req)
    (hend : (bumpAllocate req.1 req.2 s.curr).2 ≤ dmaHeapEnd) :
    Ready img { s with
      curr := (bumpAllocate req.1 req.2 s.curr).2
      blocks := s.blocks ++ [(bumpAllocate req.1 req.2 s.curr).1] } := by
  have hb := alignUp_bounds hq.2 h.le_end
  have hlo := h.start_le
  have hsnd := bumpAllocate_snd hq h.le_end
  refine ⟨h.tables, by simp only; omega, hend, fun b hmem => ?_⟩
  rcases List.mem_append.1 hmem with hold | hnew
  · exact h.inside b hold
  · obtain rfl := List.mem_singleton.1 hnew
    have haddr : (bumpAllocate req.1 req.2 s.curr).1 = ⟨alignUp req.2 s.curr, req.1⟩ := rfl
    rw [haddr]
    exact ⟨by simp only; omega, by simp only; omega⟩

/-- A part of the boot that takes these blocks and leaves the tables as `M` says; without room it
faults. -/
def Allocates (img : Image) (f : Booting → Option Booting) (reqs : List (ℕ × ℕ))
    (M : ℕ → Memory → Memory) : Prop :=
  ∀ s, Ready img s →
    (HeapHolds reqs s.curr → ∃ s', f s = some s' ∧ Ready img s' ∧
      s'.curr = bumpAllocateAll reqs s.curr ∧ s'.mem = M s.curr s.mem) ∧
    (¬ HeapHolds reqs s.curr → f s = none)

theorem Allocates.bind (hf : Allocates img f reqs M) (hg : Allocates img g reqs' M') :
    Allocates img (fun s => (f s).bind g) (reqs ++ reqs')
      fun curr mem => M' (bumpAllocateAll reqs curr) (M curr mem) := by
  intro s h
  rw [heapHolds_append, bumpAllocateAll_append]
  by_cases hroom : HeapHolds reqs s.curr
  · obtain ⟨s', hs', h', hcurr, hmem⟩ := (hf s h).1 hroom
    obtain ⟨hsome, hnone⟩ := hg s' h'
    rw [hcurr, hmem] at hsome
    rw [hcurr] at hnone
    simp only [hs', Option.bind_some]
    exact ⟨fun hr => hsome hr.2, fun hr => hnone fun hr' => hr ⟨hroom, hr'⟩⟩
  · exact ⟨fun hr => absurd hr.1 hroom, fun _ => by simp only [(hf s h).2 hroom, Option.bind_none]⟩

theorem Allocates.none : Allocates img some [] fun _ mem => mem :=
  fun s h => ⟨fun _ => ⟨s, rfl, h, rfl, rfl⟩, fun hr => absurd trivial hr⟩

theorem allocates_allocateBlock (hq : Request req) :
    Allocates img (fun s => allocateBlock img s req) [req] fun _ mem => mem := by
  intro s h
  simp only [allocateBlock_eq hq h, HeapHolds, and_true]
  refine ⟨fun hend => ⟨_, if_pos hend, h.allocateBlock hq hend, rfl, rfl⟩, fun hend => if_neg hend⟩

theorem allocates_allocateBlocks (hq : ∀ req ∈ reqs, Request req) :
    Allocates img (allocateBlocks img reqs) reqs fun _ mem => mem := by
  induction reqs with
  | nil => exact .none
  | cons req reqs ih =>
      exact (allocates_allocateBlock (hq req List.mem_cons_self)).bind
        (ih fun req' hreq => hq req' (List.mem_cons_of_mem _ hreq))

/-- Between two groups of blocks the tables may change, but for those of the heap. -/
theorem Allocates.between (hf : Allocates img f reqs fun _ mem => mem)
    (hg : Allocates img g reqs' fun _ mem => mem)
    (hM : ∀ curr mem, HeapTables img mem → HeapTables img (M curr mem)) :
    Allocates img (fun s => (f s).bind fun s' => g { s' with mem := M s.curr s'.mem })
      (reqs ++ reqs') M := by
  intro s h
  rw [heapHolds_append, bumpAllocateAll_append]
  by_cases hroom : HeapHolds reqs s.curr
  · obtain ⟨s', hs', h', hcurr, hmem⟩ := (hf s h).1 hroom
    obtain ⟨hsome, hnone⟩ := hg { s' with mem := M s.curr s'.mem }
      ⟨hM _ _ h'.tables, h'.start_le, h'.le_end, h'.inside⟩
    have hmem' : s'.mem = s.mem := hmem
    simp only [hs', Option.bind_some, ← hcurr, ← hmem']
    exact ⟨fun hr => hsome hr.2, fun hr => hnone fun hr' => hr ⟨hroom, hr'⟩⟩
  · exact ⟨fun hr => absurd hr.1 hroom, fun _ => by simp only [(hf s h).2 hroom, Option.bind_none]⟩

/-- **`gpu_init`** maps the framebuffer between two groups of its blocks. -/
theorem allocates_gpuInit (width height : ℕ) :
    Allocates img (gpuInit img width height)
      (gpuRequests ++ ((fbSize width height, 4096) :: attachRequests ++ scanoutRequests))
      fun curr mem =>
        mmuMapFramebuffer img (fbBlock curr width height).addr (fbSize width height) mem := by
  have hattach : ∀ req ∈ (fbSize width height, 4096) :: attachRequests, Request req :=
    List.forall_mem_cons.2 ⟨request_fb width height, request_attach⟩
  have hmap : Allocates img (fun s => (allocateBlocks img
        ((fbSize width height, 4096) :: attachRequests) s).bind fun s' => allocateBlocks img
          scanoutRequests ⟨mmuMapFramebuffer img (bumpAllocate (fbSize width height) 4096
            s.curr).1.addr (fbSize width height) s'.mem, s'.curr, s'.blocks⟩)
      ((fbSize width height, 4096) :: attachRequests ++ scanoutRequests)
      fun curr mem => mmuMapFramebuffer img (bumpAllocate (fbSize width height) 4096 curr).1.addr
        (fbSize width height) mem :=
    (allocates_allocateBlocks hattach).between (allocates_allocateBlocks request_scanout)
      fun curr _ h => h.mapFramebuffer (bumpAllocate (fbSize width height) 4096 curr).1.addr
        (fbSize width height)
  intro s h
  simp only [gpuInit, fbBlock]
  exact (allocates_allocateBlocks request_gpu).bind hmap s h

/-- What a device does to the tables. -/
def deviceMap (img : Image) : Device → ℕ → Memory → Memory
  | .gpu width height, curr, mem => mmuMapFramebuffer img
      (fbBlock (bumpAllocateAll [queueRequest] curr) width height).addr (fbSize width height) mem
  | _, _, mem => mem

theorem allocates_deviceInit (d : Device) :
    Allocates img (fun s => deviceInit img s d) (deviceRequests d) (deviceMap img d) := by
  intro s h
  cases d with
  | input => exact allocates_allocateBlocks request_input s h
  | gpu width height =>
      exact (allocates_allocateBlock request_queue).bind (allocates_gpuInit width height) s h
  | blk => exact allocates_allocateBlock request_queue s h
  | other => exact Allocates.none s h

/-- **The probe** takes the devices one after the other. -/
theorem allocates_probe (devices : List Device) :
    ∃ M, Allocates img (virtioProbeAndInit img devices) (devices.flatMap deviceRequests) M ∧
      ((∀ d ∈ devices, ∀ width height, d ≠ .gpu width height) → M = fun _ mem => mem) := by
  induction devices with
  | nil => exact ⟨_, .none, fun _ => rfl⟩
  | cons d devices ih =>
      obtain ⟨M, hM, hid⟩ := ih
      refine ⟨_, (allocates_deviceInit d).bind hM, fun hno => ?_⟩
      have hd := hno d List.mem_cons_self
      rw [hid fun d' hd' => hno d' (List.mem_cons_of_mem _ hd')]
      cases d with
      | gpu width height => exact absurd rfl (hd width height)
      | _ => rfl

theorem probe_append (before after : List Device) (s : Booting) :
    virtioProbeAndInit img (before ++ after) s =
      (virtioProbeAndInit img before s).bind (virtioProbeAndInit img after) := by
  induction before generalizing s with
  | nil => rfl
  | cons d before ih =>
      simp only [List.cons_append, virtioProbeAndInit, Option.bind_assoc]
      exact congrArg _ (funext fun s' => ih s')

end

/-! ### The boot with one GPU -/

/-- The heap when `gpu_init` starts. -/
def gpuStart (before : List Device) : ℕ :=
  bumpAllocateAll (before.flatMap deviceRequests ++ [queueRequest]) dmaHeapStart

section
variable {before after : List Device} {width height : ℕ}

/-- The probe with one GPU maps its framebuffer once. -/
theorem allocates_probe_gpu (hbefore : ∀ d ∈ before, ∀ w h, d ≠ .gpu w h)
    (hafter : ∀ d ∈ after, ∀ w h, d ≠ .gpu w h) :
    Allocates img (virtioProbeAndInit img (before ++ .gpu width height :: after))
      ((before ++ .gpu width height :: after).flatMap deviceRequests)
      fun curr mem => deviceMap img (.gpu width height)
        (bumpAllocateAll (before.flatMap deviceRequests) curr) mem := by
  obtain ⟨M, hM, hid⟩ := @allocates_probe img before
  obtain ⟨M', hM', hid'⟩ := @allocates_probe img after
  rw [hid hbefore] at hM
  rw [hid' hafter] at hM'
  have hboth := hM.bind ((allocates_deviceInit (.gpu width height)).bind hM')
  rw [List.flatMap_append, List.flatMap_cons]
  intro s h
  rw [probe_append]
  exact hboth s h

/-- **The boot** has room for its blocks and maps the framebuffer, or it faults. -/
theorem kernelMain_spec (mem : Memory)
    (hbefore : ∀ d ∈ before, ∀ w h, d ≠ .gpu w h) (hafter : ∀ d ∈ after, ∀ w h, d ≠ .gpu w h) :
    (HeapHolds (bootRequests (before ++ .gpu width height :: after)) dmaHeapStart →
      ∃ s, kernelMain img (before ++ .gpu width height :: after) mem = some s ∧
        (∀ b ∈ s.blocks, dmaHeapStart ≤ b.addr ∧ b.addr + b.size ≤ dmaHeapEnd) ∧
        s.mem = bootTables img (fbBlock (gpuStart before) width height).addr (fbSize width height)
          mem) ∧
    (¬ HeapHolds (bootRequests (before ++ .gpu width height :: after)) dmaHeapStart →
      kernelMain img (before ++ .gpu width height :: after) mem = none) := by
  have hstart : Ready img ⟨mmuInitTables img mem, dmaHeapStart, []⟩ :=
    ⟨heapTables_init mem, le_rfl, start_le_end, nofun⟩
  have hprobe := @allocates_probe_gpu img before after width height hbefore hafter _ hstart
  have hgpu : bumpAllocateAll [queueRequest]
      (bumpAllocateAll (before.flatMap deviceRequests) dmaHeapStart) = gpuStart before := by
    rw [gpuStart, bumpAllocateAll_append]
  generalize hdevices : before ++ .gpu width height :: after = devices at hprobe ⊢
  rw [kernelMain, bootRequests, heapHolds_append]
  by_cases hroom : HeapHolds (devices.flatMap deviceRequests) dmaHeapStart
  · obtain ⟨s, hs, hready, hcurr, hmem⟩ := hprobe.1 hroom
    simp only [deviceMap, hgpu] at hmem hcurr
    simp only [hs, Option.bind_some, readBootSector, hroom, true_and, ← hcurr]
    split_ifs with hblk
    · obtain ⟨hsome, hnone⟩ := allocates_allocateBlocks request_sector s hready
      refine ⟨fun hr => ?_, fun hr => by rw [hnone hr, Option.map_none]⟩
      obtain ⟨s', hs', hready', -, hmem'⟩ := hsome hr
      exact ⟨{ s' with curr := s.curr }, by rw [hs', Option.map_some], hready'.inside,
        hmem'.trans hmem⟩
    · exact ⟨fun _ => ⟨s, rfl, hready.inside, hmem⟩, fun hr => absurd trivial hr⟩
  · exact ⟨fun hr => absurd hr.1 hroom, fun _ => by rw [hprobe.2 hroom, Option.bind_none]⟩

/-- The framebuffer of a boot with room lies in the heap. -/
theorem fbBlock_inside
    (h : HeapHolds (bootRequests (before ++ .gpu width height :: after)) dmaHeapStart) :
    ∃ k, (fbBlock (gpuStart before) width height).addr = 4096 * k ∧ dmaHeapStart ≤ 4096 * k ∧
      4096 * k + fbSize width height ≤ dmaHeapEnd := by
  have hsplit : bootRequests (before ++ .gpu width height :: after) =
      (before.flatMap deviceRequests ++ [queueRequest]) ++ (gpuRequests ++ (fbSize width height,
        4096) :: (attachRequests ++ scanoutRequests ++ after.flatMap deviceRequests ++
          if .blk ∈ before ++ .gpu width height :: after then sectorRequests else [])) := by
    simp only [bootRequests, deviceRequests, List.flatMap_append, List.flatMap_cons,
      List.append_assoc, List.cons_append, List.nil_append]
  have hbefore : ∀ req ∈ before.flatMap deviceRequests ++ [queueRequest], Request req := by
    rw [List.forall_mem_append, List.forall_mem_singleton]
    refine ⟨fun req hreq => ?_, request_queue⟩
    obtain ⟨d, -, hd⟩ := List.mem_flatMap.1 hreq
    exact request_device d req hd
  rw [hsplit, heapHolds_append] at h
  obtain ⟨hq, hrest⟩ := h
  obtain ⟨hlo, hhi⟩ := hq.bounds hbefore le_rfl start_le_end
  rw [← gpuStart] at hrest hlo hhi
  obtain ⟨hgpu, hfb, -⟩ := heapHolds_append.1 hrest
  obtain ⟨-, hhi'⟩ := hgpu.bounds request_gpu hlo hhi
  rw [bumpAllocate_snd (request_fb width height) hhi'] at hfb
  have hend : dmaHeapEnd < 2 ^ 63 := by
    rw [dmaHeapEnd]
    omega
  obtain ⟨k, hk, hle, -⟩ := fbBlock_addr width height (show gpuStart before < 2 ^ 63 by omega)
  have haddr : alignUp 4096 (bumpAllocateAll gpuRequests (gpuStart before)) = 4096 * k := by
    rw [← hk, fbBlock, bumpAllocate]
  simp only [haddr] at hfb
  exact ⟨k, hk, by omega, hfb⟩

/-- With room for its blocks the boot goes on to the shell, for which the pages of the framebuffer
are mapped. -/
theorem mapped_kernelMain (mem : Memory)
    (hbefore : ∀ d ∈ before, ∀ w h, d ≠ .gpu w h) (hafter : ∀ d ∈ after, ∀ w h, d ≠ .gpu w h)
    (hroom : HeapHolds (bootRequests (before ++ .gpu width height :: after)) dmaHeapStart) :
    ∃ s, kernelMain img (before ++ .gpu width height :: after) mem = some s ∧
      (∀ b ∈ s.blocks, dmaHeapStart ≤ b.addr ∧ b.addr + b.size ≤ dmaHeapEnd) ∧
      ∀ i < 1280 * 800, (el0Address img s.mem (0x20000000 + 4 * i)).isSome ↔
        4 * i < 4096 * ((fbSize width height + 4095) / 4096) := by
  obtain ⟨s, hs, hblocks, hmem⟩ := (kernelMain_spec mem hbefore hafter).1 hroom
  obtain ⟨k, hk, hlo, hhi⟩ := fbBlock_inside hroom
  refine ⟨s, hs, hblocks, fun i hi => ?_⟩
  rw [dmaHeapStart] at hlo
  rw [dmaHeapEnd] at hhi
  have hstart := (img.tableBounds .l1).1.trans (Nat.le_of_add_right_le (img.tableBounds .l1).2)
  have hpages : (fbSize width height + pageSize - 1) / pageSize =
      (fbSize width height + 4095) / 4096 := rfl
  rw [hmem, hk, el0Address_eq (filled_bootTables _ (by omega)) (Nat.dvd_mul_right _ _)
    (by omega) (by omega), if_neg (by omega), hpages]
  split_ifs with hin
  · simp only [Option.isSome_some, true_iff]
    omega
  · simp only [Option.isSome_none, Bool.false_eq_true, false_iff]
    omega

/-- **Where the display works.**  The boot stops with a fault, or the framebuffer has the thousand
pages that the shell stores to. -/
theorem display_works_iff (img : Image) (before after : List Device) (width height : ℕ)
    (hbefore : ∀ d ∈ before, ∀ w h, d ≠ .gpu w h) (hafter : ∀ d ∈ after, ∀ w h, d ≠ .gpu w h)
    (mem : Memory) (font8x8 : ℕ → ℕ → ℕ) (framebuffer : ℕ → ℕ) :
    DisplayWorks img (before ++ .gpu width height :: after) mem font8x8 framebuffer ↔
      ¬ HeapHolds (bootRequests (before ++ .gpu width height :: after)) dmaHeapStart ∨
        1000 ≤ (fbSize width height + 4095) / 4096 := by
  by_cases hroom : HeapHolds (bootRequests (before ++ .gpu width height :: after)) dmaHeapStart
  · obtain ⟨s, hs, hblocks, hword⟩ :=
      @mapped_kernelMain img before after width height mem hbefore hafter hroom
    rw [or_iff_right (not_not.2 hroom)]
    constructor
    · intro h
      have hlast := (h s hs).2 [] (1280 * 800 - 1) ((mem_written_clear framebuffer).2 (by omega))
      have hlt := (hword _ (by omega)).1 hlast
      omega
    · intro hpages s' hs'
      obtain rfl : s = s' := Option.some.inj (hs.symm.trans hs')
      refine ⟨hblocks, fun ops i hi => ?_⟩
      have hi' := terminal_inside font8x8 framebuffer ops i hi
      exact (hword i hi').2 (by omega)
  · refine iff_of_true (fun s hs => ?_) (.inl hroom)
    rw [(kernelMain_spec mem hbefore hafter).2 hroom] at hs
    cases hs

/-- A disk, a GPU with the size of the shell's screen, and a keyboard. -/
theorem display_works_shell_size :
    HeapHolds (bootRequests [.blk, .gpu 1280 800, .input]) dmaHeapStart ∧
      DisplayWorks smallImage [.blk, .gpu 1280 800, .input] (fun _ => 0) (fun _ _ => 0)
        fun _ => 0 := by
  refine ⟨by decide +kernel, ?_⟩
  have h := display_works_iff smallImage [.blk] [.input] 1280 800 (by simp) (by simp) (fun _ => 0)
    (fun _ _ => 0) fun _ => 0
  exact h.2 (.inr (by decide +kernel))

/-- **A smaller screen**: at 800 by 600 the boot goes on, and the shell's first stores have no
page. -/
theorem small_screen_faults :
    HeapHolds (bootRequests [.gpu 800 600]) dmaHeapStart ∧
      ¬ DisplayWorks smallImage [.gpu 800 600] (fun _ => 0) (fun _ _ => 0) fun _ => 0 := by
  have hroom : HeapHolds (bootRequests [.gpu 800 600]) dmaHeapStart := by decide +kernel
  obtain ⟨s, hs, -, hword⟩ := @mapped_kernelMain smallImage [] [] 800 600 (fun _ => 0) nofun nofun
    hroom
  refine ⟨hroom, fun h => ?_⟩
  have hlast := (h s hs).2 [] (1280 * 800 - 1) ((mem_written_clear _).2 (by omega))
  have hlt := (hword _ (by omega)).1 hlast
  have hsize : fbSize 800 600 = 1920000 := by decide +kernel
  omega

end

end Kernel
end AiOsExchange
