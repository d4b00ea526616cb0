/-
# The translation tables

`kernel/mmu.c`.  Six tables of 512 descriptors stand in the kernel's data; the walk of the
hardware starts at the first and goes through two or three of them.

| table | covers | filled by |
| --- | --- | --- |
| `l1_table` | 512 GB, 1 GB an entry | `mmu_init_tables` |
| `l2_table_user` | the first GB, 2 MB an entry | both |
| `l2_table_kernel` | the second GB, 2 MB an entry | `mmu_init_tables` |
| `l3_table_mmio` | 2 MB from `0x0A000000`, 4 KB an entry | `mmu_init_tables` |
| `l3_table_fb_0`, `l3_table_fb_1` | 4 MB from `0x20000000`, 4 KB an entry | `mmu_map_framebuffer` |

`Image` says what the linker script promises of their addresses and of the EL0 region: `.bss`
precedes the region, and the region's ends are multiples of 2 MB.  The memory is that of 64-bit
words.  The configuration of step 8 (`T0SZ = 25`, 4 KB granule, `EPD1`) is in the walk: three
levels, addresses below `2 ^ 39`.
-/

import AiOsExchange.Virtio.Heap
import Mathlib.Logic.Function.Basic

namespace AiOsExchange
namespace Kernel

/-- The six tables. -/
inductive Table
  | l1 | l2User | l2Kernel | l3Mmio | l3Fb0 | l3Fb1
  deriving DecidableEq

/-- Where the linker puts the tables and the EL0 region, `_el0_region_start` and
`_el0_region_end`. -/
structure Image where
  addr : Table → ℕ
  el0Start : ℕ
  el0End : ℕ
  tableAligned : ∀ t, 4096 ∣ addr t
  apart : ∀ t u, addr t = addr u → t = u
  tableBounds : ∀ t, 0x40000000 ≤ addr t ∧ addr t + 4096 ≤ el0Start
  startAligned : 0x200000 ∣ el0Start
  endAligned : 0x200000 ∣ el0End
  startLe : el0Start ≤ el0End
  endLe : el0End ≤ 0x48000000

/-- 64-bit words by address. -/
abbrev Memory := ℕ → ℕ

/-- `PAGE_SIZE`. -/
def pageSize : ℕ := 4096

/-! ### Descriptors -/

def descValid : ℕ := 1
def descTable : ℕ := 2
def descPage : ℕ := 2
def descBlock : ℕ := 0
def descAf : ℕ := 1024
def apRwEl1 : ℕ := 0
def apRwAny : ℕ := 64
def attrDevice : ℕ := 0
def attrNormal : ℕ := 4

/-- `a | attr | ap | DESC_AF | kind | DESC_VALID`. -/
def descriptor (a attr ap kind : ℕ) : ℕ := a ||| attr ||| ap ||| descAf ||| kind ||| descValid

/-- `a | DESC_TABLE | DESC_VALID`. -/
def tableDescriptor (a : ℕ) : ℕ := a ||| descTable ||| descValid

/-! ### Filling the tables -/

variable (img : Image)

/-- `table[i]`. -/
def entry (mem : Memory) (t : Table) (i : ℕ) : ℕ := mem (img.addr t + 8 * i)

/-- `table[i] = v`. -/
def store (t : Table) (i v : ℕ) (mem : Memory) : Memory :=
  Function.update mem (img.addr t + 8 * i) v

/-- `for (i in is) table[i] = f(i)`. -/
def storeAll (t : Table) (f : ℕ → ℕ) (is : List ℕ) (mem : Memory) : Memory :=
  is.foldl (fun mem i => store img t i (f i) mem) mem

/-- `idx_start`, in 32 bits. -/
def idxStart : ℕ := (img.el0Start - 0x40000000) / 0x200000 % 2 ^ 32

/-- `idx_end`, in 32 bits. -/
def idxEnd : ℕ := (img.el0End - 0x40000000 + 0x200000 - 1) / 0x200000 % 2 ^ 32

/-- The blocks of the kernel's RAM. -/
def ramBlock (ap i : ℕ) : ℕ := descriptor (0x40000000 + i * 0x200000) attrNormal ap descBlock

/-- `mmu_init_tables`, up to the system registers. -/
def mmuInitTables (mem : Memory) : Memory :=
  let mem := [Table.l1, .l2Kernel, .l2User, .l3Mmio, .l3Fb0, .l3Fb1].foldl
    (fun mem t => storeAll img t (fun _ => 0) (List.range 512) mem) mem
  let mem := store img .l1 1 (tableDescriptor (img.addr .l2Kernel)) mem
  let mem := store img .l1 0 (tableDescriptor (img.addr .l2User)) mem
  let mem := storeAll img .l2Kernel (ramBlock apRwEl1) (List.range 64) mem
  let mem := storeAll img .l2Kernel (ramBlock apRwAny)
    (List.range' (idxStart img) (min (idxEnd img) 64 - idxStart img)) mem
  let mem := store img .l2User 64 (descriptor 0x08000000 attrDevice apRwEl1 descBlock) mem
  let mem := store img .l2User 72 (descriptor 0x09000000 attrDevice apRwEl1 descBlock) mem
  let mem := store img .l2Kernel 128 (descriptor 0x50000000 attrDevice apRwEl1 descBlock) mem
  let mem := store img .l2Kernel 129 (descriptor 0x50200000 attrDevice apRwEl1 descBlock) mem
  let mem := store img .l2User 80 (tableDescriptor (img.addr .l3Mmio)) mem
  storeAll img .l3Mmio (fun i => descriptor (0x0a000000 + i * 4096) attrDevice apRwEl1 descPage)
    (List.range 32) mem

/-- One page of the framebuffer. -/
def mapPage (physAddr : ℕ) (mem : Memory) (pageIdx : ℕ) : Memory :=
  let desc := descriptor (physAddr + pageIdx * pageSize) attrNormal apRwAny descPage
  if pageIdx < 512 then store img .l3Fb0 pageIdx desc mem
  else if pageIdx < 1024 then store img .l3Fb1 (pageIdx - 512) desc mem
  else mem

/-- `mmu_map_framebuffer`: a page for each `offset = 0, 4096, … < size`. -/
def mmuMapFramebuffer (physAddr size : ℕ) (mem : Memory) : Memory :=
  if physAddr = 0 then mem
  else
    let mem := store img .l2User 256 (tableDescriptor (img.addr .l3Fb0)) mem
    let mem := store img .l2User 257 (tableDescriptor (img.addr .l3Fb1)) mem
    (List.range ((size + pageSize - 1) / pageSize)).foldl (mapPage img physAddr) mem

/-! ### The walk -/

/-- The walk from the table at `base`, one level for each shift: the address and the descriptor
it ends with, nothing where it faults. -/
def walkFrom (mem : Memory) (va : ℕ) : ℕ → List ℕ → Option (ℕ × ℕ)
  | _, [] => none
  | base, shift :: shifts =>
      let d := mem (base + 8 * (va / 2 ^ shift % 512))
      if d % 2 = 0 then none
      else if shifts = [] then
        if d / 2 % 2 = 1 then some (d % 2 ^ 48 / 2 ^ shift * 2 ^ shift + va % 2 ^ shift, d) else none
      else if d / 2 % 2 = 1 then walkFrom mem va (d % 2 ^ 48 / 4096 * 4096) shifts
      else some (d % 2 ^ 48 / 2 ^ shift * 2 ^ shift + va % 2 ^ shift, d)

/-- The translation of a virtual address below `2 ^ 39`; above there is no table. -/
def walk (mem : Memory) (va : ℕ) : Option (ℕ × ℕ) :=
  if va < 2 ^ 39 then walkFrom mem va (img.addr .l1) [30, 21, 12] else none

/-- What EL0 gets of a walk: `AP[1]` and the access flag must be set. -/
def el0Of (r : Option (ℕ × ℕ)) : Option ℕ :=
  r.bind fun r => if r.2 / 64 % 2 = 1 ∧ r.2 / 1024 % 2 = 1 then some r.1 else none

/-- The address EL0 gets to. -/
def el0Address (mem : Memory) (va : ℕ) : Option ℕ := el0Of (walk img mem va)

end Kernel
end AiOsExchange
