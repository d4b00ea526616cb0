/-
# The DMA heap over a run of system calls

`kernel/virtio.c`, `kernel/syscall.c` and `autarky_vm/src/lib.rs`.  Three drivers take a snapshot
of `dma_heap_curr` and put it back; the allocator of the contract engine draws from the same
pointer and gives nothing back.

| source | here |
| --- | --- |
| `bump_allocate`, with its loop that zeroes the block | `allocate` |
| `virtio_gpu_flush`, `virtio_blk_read_sector`, `virtio_blk_write_sector` | the same names |
| `BareMetalAllocator::alloc` | `allocLayout` |
| the allocations of `autarky_execute` | `executeHeap` |
| `syscall_handler` | `Machine.step` |

A block with a byte outside the mapped range cannot be zeroed: the call faults and does not come
back (`none`).  The snapshots are the same whatever the sectors, so a call carries the list of the
sector transfers it makes, and an execution the allocations it makes after its first one; both
are any lists.  So the heap is balanced exactly as long as no call executes a source that is not
empty (`heap_balanced_iff`).
-/

import AiOsExchange.Kernel.Exec
import AiOsExchange.Kernel.Stale
import AiOsExchange.Lib.Run
import AiOsExchange.Virtio.Heap

namespace AiOsExchange
namespace Kernel

open CMemory Computations Watcher Fat32 Autarky Virtio Runs

/-! ### Allocation -/

/-- Every byte of the block is mapped. -/
def Mapped (b : Block) : Prop := b.size = 0 ∨ (dmaHeapStart ≤ b.addr ∧ b.addr + b.size ≤ dmaHeapEnd)

instance (b : Block) : Decidable (Mapped b) := inferInstanceAs (Decidable (_ ∨ _))

/-- `bump_allocate`, which writes every byte of the block. -/
def allocate (size align curr : ℕ) : Option ℕ :=
  if Mapped (bumpAllocate size align curr).1 then some (bumpAllocate size align curr).2 else none

/-- Several allocations, one after the other. -/
def allocateAll : List (ℕ × ℕ) → ℕ → Option ℕ
  | [], curr => some curr
  | (size, align) :: reqs, curr => (allocate size align curr).bind (allocateAll reqs)

/-- The allocations `reqs` between the snapshot and the reset, where the device is there. -/
def withSnapshot (device : Bool) (reqs : List (ℕ × ℕ)) (dmaHeapCurr : ℕ) : Option ℕ :=
  if device then do
    let heapSave := dmaHeapCurr
    let _ ← allocateAll reqs dmaHeapCurr
    pure heapSave
  else some dmaHeapCurr

/-- The addresses the drivers look at. -/
structure Drivers where
  gpuMmioBase : ℕ
  activeFbPhys : ℕ
  blkMmioBase : ℕ

def virtioGpuFlush (d : Drivers) (dmaHeapCurr : ℕ) : Option ℕ :=
  withSnapshot (d.gpuMmioBase ≠ 0 && d.activeFbPhys ≠ 0) [(56, 8), (24, 8), (48, 8), (24, 8)]
    dmaHeapCurr

def virtioBlkReadSector (d : Drivers) (dmaHeapCurr : ℕ) : Option ℕ :=
  withSnapshot (d.blkMmioBase ≠ 0) [(16, 16), (1, 1)] dmaHeapCurr

def virtioBlkWriteSector (d : Drivers) (dmaHeapCurr : ℕ) : Option ℕ :=
  withSnapshot (d.blkMmioBase ≠ 0) [(16, 16), (1, 1)] dmaHeapCurr

/-- A transfer of a sector. -/
inductive Transfer
  | read | write

def transfer (d : Drivers) (dmaHeapCurr : ℕ) : Transfer → Option ℕ
  | .read => virtioBlkReadSector d dmaHeapCurr
  | .write => virtioBlkWriteSector d dmaHeapCurr

/-- The transfers of a call of the file system. -/
def transfers (d : Drivers) : List Transfer → ℕ → Option ℕ
  | [], curr => some curr
  | t :: ts, curr => (transfer d curr t).bind (transfers d ts)

/-- A `Layout` the engine asks for: it is never empty, and no type of the engine has an alignment
above 16. -/
structure Layout where
  size : ℕ
  alignLog : ℕ
  sizePos : 0 < size
  sizeLt : size < 2 ^ 32
  alignLe : alignLog ≤ 4

/-- `BareMetalAllocator::alloc`; `dealloc` does nothing. -/
def allocLayout (layout : Layout) (curr : ℕ) : Option ℕ :=
  allocate layout.size (2 ^ layout.alignLog) curr

def allocLayouts : List Layout → ℕ → Option ℕ
  | [], curr => some curr
  | layout :: layouts, curr => (allocLayout layout curr).bind (allocLayouts layouts)

/-- The first string of the parser: the first word, or the error `"EOF"` where there is none. -/
def firstString (source : List Char) : Word := ((words source).head?).getD "EOF".toList

/-- The first string is not empty. -/
theorem firstString_ne_nil (source : List Char) : firstString source ≠ [] := by
  cases h : dropBlank source with
  | nil => simp [firstString, words_of_nil h]
  | cons c r =>
      have hb := (of_dropBlank_eq_cons h).1
      simp only [firstString, words_of_cons h, List.head?_cons, Option.getD_some, nextWord]
      split_ifs with h1 h2
      · simp
      · simp
      · have he : endsWord (c :: r) = false := by simp [endsWord, hb, h1, h2]
        simp [takeWord, he]

/-- What `autarky_execute` allocates: nothing for an empty source; otherwise the first string,
whose buffer is at least as long as it (`slack`), and then the layouts `rest`. -/
def executeHeap (source : List Char) (slack : ℕ) (rest : List Layout) (curr : ℕ) : Option ℕ :=
  if source = [] then some curr
  else (allocate ((utf8Bytes (firstString source)).length + slack) 1 curr).bind (allocLayouts rest)

/-! ### System calls -/

/-- The kernel and its heap. -/
structure Machine extends KernelState where
  dmaHeapCurr : ℕ

/-- A system call, with the parts of it that the heap depends on. -/
inductive Syscall
  | hwDrain (msgs : List OsMessage)
  | gpuFlush
  | uartRecv
  | ipcSend (loc : Locals) (fuel : ℕ) (msg : OsMessage) (io : List Transfer) (slack : ℕ)
      (rest : List Layout)
  | ipcRecv (msg : OsMessage)
  | other

/-- The source a call executes. -/
def Syscall.source (call : Syscall) (k : KernelState) : List Char :=
  match call with
  | .ipcSend loc _ msg _ _ _ =>
      if msg.targetId = sysModKernel ∧ msg.type = .atkExecReq then executedSource loc msg k else []
  | _ => []

/-- `dma_heap_curr` after the call. -/
def Syscall.heap (d : Drivers) (call : Syscall) (m : Machine) : Option ℕ :=
  match call with
  | .gpuFlush => virtioGpuFlush d m.dmaHeapCurr
  | .ipcSend _ _ msg io slack rest =>
      if msg.targetId = sysModKernel then
        (transfers d io m.dmaHeapCurr).bind
          (executeHeap (call.source m.toKernelState) slack rest)
      else some m.dmaHeapCurr
  | _ => some m.dmaHeapCurr

/-- The kernel after the call; nothing if it does not come back. -/
def Syscall.kernel (fmtValue : Value → List Char) (call : Syscall) (k : KernelState) :
    Option KernelState :=
  match call with
  | .hwDrain msgs => some { k with ipc := msgs.foldl (fun q msg => ipcKernelSend msg q) k.ipc }
  | .ipcSend loc fuel msg _ _ _ =>
      match sysIpcSend fmtValue fuel loc msg k with
      | (.ok (), k') => some k'
      | _ => none
  | .ipcRecv msg => some { k with ipc := (ipcReceive msg k.ipc).2 }
  | _ => some k

/-- `syscall_handler`; nothing if the call does not come back. -/
def Machine.handle (fmtValue : Value → List Char) (d : Drivers) (m : Machine) (call : Syscall) :
    Option Machine := do
  let k ← call.kernel fmtValue m.toKernelState
  let curr ← call.heap d m
  pure ⟨k, curr⟩

/-- One call of a run, which ends with a call that does not come back. -/
def syscallStep (fmtValue : Value → List Char) (d : Drivers) (m : Option Machine)
    (call : Syscall) : Option Machine := m.bind fun m => m.handle fmtValue d call

/-! ### The balance -/

/-- A snapshot gives back what was allocated. -/
theorem eq_of_withSnapshot {device : Bool} {reqs : List (ℕ × ℕ)} {curr next : ℕ}
    (h : withSnapshot device reqs curr = some next) : next = curr := by
  unfold withSnapshot at h
  split_ifs at h
  · obtain ⟨-, -, h⟩ := Option.bind_eq_some_iff.1 h
    exact (Option.some.inj h).symm
  · exact (Option.some.inj h).symm

theorem eq_of_transfers {d : Drivers} {ts : List Transfer} {curr next : ℕ}
    (h : transfers d ts curr = some next) : next = curr := by
  induction ts generalizing curr with
  | nil => exact (Option.some.inj h).symm
  | cons t ts ih =>
      obtain ⟨mid, hmid, hrest⟩ := Option.bind_eq_some_iff.1 h
      have heq : mid = curr := by
        cases t with
        | read => exact eq_of_withSnapshot hmid
        | write => exact eq_of_withSnapshot hmid
      rw [ih hrest, heq]

/-- **An allocation that comes back moves the pointer**, and leaves it in the mapped range. -/
theorem lt_of_allocate (k : ℕ) {size align curr next : ℕ} (halign : align = 2 ^ k) (hk : k ≤ 4)
    (hsize : 0 < size) (hcurr : curr ≤ dmaHeapEnd) (h : allocate size align curr = some next) :
    curr < next ∧ next ≤ dmaHeapEnd := by
  have hle : 2 ^ k ≤ 2 ^ 4 := Nat.pow_le_pow_right (by omega) hk
  unfold allocate at h
  split_ifs at h with hmap
  obtain hzero | ⟨-, hend⟩ := hmap
  · exact absurd hzero hsize.ne'
  have hsz : (bumpAllocate size align curr).1.size = size := rfl
  rw [hsz] at hend
  rw [dmaHeapEnd] at hcurr hend
  have haddr : curr ≤ (bumpAllocate size align curr).1.addr :=
    (alignUp_spec k halign (by omega) (by omega)).2.1
  have hnext : next = (bumpAllocate size align curr).1.addr + size := by
    rw [← Option.some.inj h, bumpAllocate, Nat.mod_eq_of_lt]
    exact Nat.lt_of_le_of_lt hend (by omega)
  rw [dmaHeapEnd]
  omega

theorem le_of_allocLayouts {layouts : List Layout} {curr next : ℕ} (hcurr : curr ≤ dmaHeapEnd)
    (h : allocLayouts layouts curr = some next) : curr ≤ next := by
  induction layouts generalizing curr with
  | nil => exact Nat.le_of_eq (Option.some.inj h)
  | cons layout layouts ih =>
      obtain ⟨mid, hmid, hrest⟩ := Option.bind_eq_some_iff.1 h
      obtain ⟨hlt, hle⟩ := lt_of_allocate _ rfl layout.alignLe layout.sizePos hcurr hmid
      exact hlt.le.trans (ih hle hrest)

/-- **An execution keeps the heap exactly if its source is empty.** -/
theorem executeHeap_eq_iff {source : List Char} {slack : ℕ} {rest : List Layout} {curr next : ℕ}
    (hcurr : curr ≤ dmaHeapEnd) (h : executeHeap source slack rest curr = some next) :
    next = curr ↔ source = [] := by
  unfold executeHeap at h
  split_ifs at h with hs
  · exact ⟨fun _ => hs, fun _ => (Option.some.inj h).symm⟩
  · obtain ⟨mid, hmid, hrest⟩ := Option.bind_eq_some_iff.1 h
    have hpos : 0 < (utf8Bytes (firstString source)).length + slack := by
      obtain ⟨c, w, hw⟩ := List.exists_cons_of_ne_nil (firstString_ne_nil source)
      have hc := String.length_utf8EncodeChar c
      have hc' := c.utf8Size_pos
      rw [hw, utf8Bytes, List.flatMap_cons, List.length_append]
      omega
    obtain ⟨hlt, hle⟩ := lt_of_allocate 0 rfl (by omega) hpos hcurr hmid
    have := le_of_allocLayouts hle hrest
    exact ⟨fun heq => by omega, fun hnil => absurd hnil hs⟩

/-- **The balance of a call** that comes back. -/
theorem heap_eq_iff {d : Drivers} {call : Syscall} {m : Machine} {next : ℕ}
    (hcurr : m.dmaHeapCurr ≤ dmaHeapEnd) (h : call.heap d m = some next) :
    next = m.dmaHeapCurr ↔ call.source m.toKernelState = [] := by
  have hsame (hnext : some m.dmaHeapCurr = some next) (hs : call.source m.toKernelState = []) :
      next = m.dmaHeapCurr ↔ call.source m.toKernelState = [] :=
    ⟨fun _ => hs, fun _ => (Option.some.inj hnext).symm⟩
  cases call with
  | gpuFlush => exact ⟨fun _ => rfl, fun _ => eq_of_withSnapshot h⟩
  | ipcSend loc fuel msg io slack rest =>
      simp only [Syscall.heap] at h
      split_ifs at h with htarget
      · obtain ⟨mid, hmid, hexec⟩ := Option.bind_eq_some_iff.1 h
        rw [eq_of_transfers hmid] at hexec
        exact executeHeap_eq_iff hcurr hexec
      · exact hsame h (if_neg fun hc => htarget hc.1)
  | hwDrain msgs => exact hsame h rfl
  | uartRecv => exact hsame h rfl
  | ipcRecv msg => exact hsame h rfl
  | other => exact hsame h rfl

/-- The heap is where it was at the start, for a machine that has come back. -/
def HeapAt (curr : ℕ) (m : Option Machine) : Prop := ∀ m', m = some m' → m'.dmaHeapCurr = curr

/-- The call does not come back, or executes no source. -/
def ExecutesNothing (fmtValue : Value → List Char) (d : Drivers) (m : Option Machine)
    (call : Syscall) : Prop :=
  ∀ m₀ m', m = some m₀ → m₀.handle fmtValue d call = some m' → call.source m₀.toKernelState = []

section
variable {fmtValue : Value → List Char} {d : Drivers} {call : Syscall}

/-- The heap of a machine that has come back from a call. -/
theorem heap_of_handle {m m' : Machine} (h : m.handle fmtValue d call = some m') :
    call.heap d m = some m'.dmaHeapCurr := by
  obtain ⟨k, -, h⟩ := Option.bind_eq_some_iff.1 h
  obtain ⟨curr, hcurr, h⟩ := Option.bind_eq_some_iff.1 h
  rw [← Option.some.inj h, hcurr]

theorem heapAt_step {curr : ℕ} {m : Option Machine} (hcurr : curr ≤ dmaHeapEnd)
    (hm : HeapAt curr m) (hok : ExecutesNothing fmtValue d m call) :
    HeapAt curr (syscallStep fmtValue d m call) := by
  intro m' h
  obtain ⟨m₀, hm₀, h⟩ := Option.bind_eq_some_iff.1 h
  have heq := hm m₀ hm₀
  rw [← heq]
  exact (heap_eq_iff (heq ▸ hcurr) (heap_of_handle h)).2 (hok m₀ m' hm₀ h)

theorem not_heapAt_step {curr : ℕ} {m : Option Machine} (hcurr : curr ≤ dmaHeapEnd)
    (hm : HeapAt curr m) (hbad : ¬ExecutesNothing fmtValue d m call) :
    ¬HeapAt curr (syscallStep fmtValue d m call) := by
  intro hnext
  refine hbad fun m₀ m' hm₀ h => ?_
  have heq := hm m₀ hm₀
  have hstep : syscallStep fmtValue d m call = some m' := by
    rw [hm₀]
    exact h
  refine (heap_eq_iff (heq ▸ hcurr) (heap_of_handle h)).1 ?_
  rw [hnext m' hstep, heq]

end

/-- **The DMA heap is balanced exactly as long as no source is executed**: over every run of
system calls from a heap in its range, `dma_heap_curr` is where it was after each call that comes
back if and only if none of these calls executes a source that is not empty. -/
theorem heap_balanced_iff (fmtValue : Value → List Char) (d : Drivers) (m : Machine)
    (hheap : m.dmaHeapCurr ≤ dmaHeapEnd) (calls : List Syscall) :
    (∀ pre, pre <+: calls → HeapAt m.dmaHeapCurr (run (syscallStep fmtValue d) (some m) pre)) ↔
      StepsMeet (syscallStep fmtValue d) (ExecutesNothing fmtValue d) (some m) calls := by
  have h0 : HeapAt m.dmaHeapCurr (some m) := by
    rintro _ ⟨⟩
    rfl
  have hstep (s : Option Machine) (call : Syscall) (hs : HeapAt m.dmaHeapCurr s) :
      ExecutesNothing fmtValue d s call → HeapAt m.dmaHeapCurr (syscallStep fmtValue d s call) :=
    heapAt_step hheap hs
  exact forall_prefix_iff_stepsMeet hstep (fun _ hm => hm)
    (fun _ _ hm hbad => not_heapAt_step hheap hm hbad) h0 calls

/-- A machine that has just been booted. -/
def bootedMachine : Machine := ⟨kernelOn blankVolume, 0x503F0000⟩

/-- The drivers of this machine. -/
def bootedDrivers : Drivers := ⟨0x0A000000, 0x50001000, 0x0A000200⟩

theorem flush_balanced :
    HeapAt 0x503F0000 (run (syscallStep (fun _ => []) bootedDrivers) (some bootedMachine)
      [.gpuFlush]) := by
  have hmeet : StepsMeet (syscallStep (fun _ => []) bootedDrivers)
      (ExecutesNothing (fun _ => []) bootedDrivers) (some bootedMachine) [.gpuFlush] :=
    ⟨fun _ _ _ _ => rfl, trivial⟩
  exact (heap_balanced_iff (fun _ => []) bootedDrivers bootedMachine (by decide) [.gpuFlush]).2
    hmeet _ List.prefix_rfl

/-- The request to execute a file that is not there. -/
def missingRequest : OsMessage :=
  ⟨sysModGuiShell, sysModKernel, .atkExecReq, 2, cString (ascii "X")⟩

/-- The stack of the handler. -/
def zeroLocals : Locals := ⟨fun _ => 0, fun _ => 0, fun _ => 0, fun _ => 0⟩

/-- The text that says so is what is executed. -/
theorem executedSource_missing :
    executedSource zeroLocals missingRequest (kernelOn blankVolume) = "File not found.".toList := by
  have hlookup : ((kernelOn blankVolume).fs.lookup (stringAt missingRequest.payload)).1 = 0 := by
    decide
  rw [executedSource, sourceText_read rfl fun _ => rfl, FatState.shown, if_pos hlookup]
  decide

section
variable {fmtValue : Value → List Char} {fuel : ℕ} {loc : Locals} {msg : OsMessage}

/-- A request to execute what is no program comes back. -/
theorem sysIpcSend_of_rejected {k : KernelState} (hm : msg.targetId = sysModKernel)
    (ht : msg.type = .atkExecReq) (h : ∀ e, compile (executedSource loc msg k) ≠ .ok e) :
    ∃ k', sysIpcSend fmtValue fuel loc msg k = (.ok (), k') := by
  have hexec := @autarkyExecute_of_rejected fmtValue fuel _ loc.outBuf _
    (k.logged .fsRead msg.senderId msg.payload).toHost h
  have hreply := handleRequest_exec_of_ok ht hexec
  rcases hr : handleRequest fmtValue fuel loc msg k with ⟨o, k₁⟩
  rw [hr] at hreply
  obtain rfl : o = _ := hreply
  refine ⟨{ k₁ with
    ipc := ipcKernelSend (withText (replyTo msg .atkExecResp loc) loc.outBuf) k₁.ipc }, ?_⟩
  rw [sysIpcSend, if_pos hm, Comp.bind_of_ok hr]
  rfl

/-- A request to execute, on the machine with its heap. -/
theorem handle_exec {d : Drivers} {m : Machine} {k' : KernelState} {io : List Transfer}
    {slack mid next : ℕ} {rest : List Layout} (hm : msg.targetId = sysModKernel)
    (ht : msg.type = .atkExecReq)
    (hk : sysIpcSend fmtValue fuel loc msg m.toKernelState = (.ok (), k'))
    (hio : transfers d io m.dmaHeapCurr = some mid)
    (hexec : executeHeap (executedSource loc msg m.toKernelState) slack rest mid = some next) :
    m.handle fmtValue d (.ipcSend loc fuel msg io slack rest) = some ⟨k', next⟩ := by
  have hsource : (Syscall.ipcSend loc fuel msg io slack rest).source m.toKernelState =
      executedSource loc msg m.toKernelState := if_pos ⟨hm, ht⟩
  simp only [Machine.handle, Syscall.kernel, Syscall.heap, if_pos hm, hk, hio, hsource,
    Option.bind_eq_bind, Option.bind_some, hexec, Option.pure_def]

end

/-- **What an execution allocates is never given back**, not even where there is no file. -/
theorem missing_file_leaks : ∃ m', run (syscallStep (fun _ => []) bootedDrivers)
    (some bootedMachine) [.ipcSend zeroLocals 0 missingRequest [.read] 4 []] = some m' ∧
      bootedMachine.dmaHeapCurr < m'.dmaHeapCurr := by
  have hrejected (e : Expr) :
      compile (executedSource zeroLocals missingRequest (kernelOn blankVolume)) ≠ .ok e := by
    rw [executedSource_missing]
    exact compile_fileNotFound e
  obtain ⟨k', hk⟩ := @sysIpcSend_of_rejected (fun _ => []) 0 _ _ _ rfl rfl hrejected
  have hio : transfers bootedDrivers [.read] bootedMachine.dmaHeapCurr = some 0x503F0000 := by
    decide
  have hexec : executeHeap (executedSource zeroLocals missingRequest (kernelOn blankVolume)) 4 []
      0x503F0000 = some 0x503F0008 := by
    rw [executedSource_missing]
    decide
  have hlt : bootedMachine.dmaHeapCurr < 0x503F0008 := by decide
  exact ⟨⟨k', 0x503F0008⟩, handle_exec rfl rfl hk hio hexec, hlt⟩

end Kernel
end AiOsExchange
