/-
# The DMA heap

`bump_allocate` and the allocations of `gpu_init` (`kernel/virtio.c`).  The heap is one pointer,
`dma_heap_curr`, that only allocation moves; `size` and `align` are 32-bit numbers and the
pointer is a 64-bit one.  A block is zeroed as soon as it is allocated.

| source | here |
| --- | --- |
| `dma_heap_curr` | the argument `curr` and the second result |
| `bump_allocate(size, align)` | `bumpAllocate`, `alignUp` |
| `gpu_init`, up to the framebuffer | `fbDimensions`, `fbSize`, `fbBlock` |
-/

import Mathlib.Algebra.Order.Ring.Int
import Mathlib.Data.Nat.Bitwise

namespace AiOsExchange
namespace Virtio

/-- The first address of the heap, and the first behind the memory mapped for it. -/
def dmaHeapStart : ℕ := 0x50000000

def dmaHeapEnd : ℕ := 0x50400000

/-- `(addr + align - 1) & ~((uint64_t)(align - 1))`, where `addr % align != 0`. -/
def alignUp (align addr : ℕ) : ℕ :=
  if addr % align ≠ 0 then ((addr + align - 1) % 2 ^ 64) &&& (2 ^ 64 - 1 - (align - 1)) else addr

/-- An allocated block. -/
structure Block where
  addr : ℕ
  size : ℕ
  deriving DecidableEq

/-- `bump_allocate`: the block and the new `dma_heap_curr`. -/
def bumpAllocate (size align curr : ℕ) : Block × ℕ :=
  let addr := alignUp align curr
  (⟨addr, size⟩, (addr + size) % 2 ^ 64)

/-- Several allocations, one after the other. -/
def bumpAllocateAll : List (ℕ × ℕ) → ℕ → ℕ
  | [], curr => curr
  | (size, align) :: reqs, curr => bumpAllocateAll reqs (bumpAllocate size align curr).2

/-- Clearing the low bits rounds down. -/
theorem and_not_low (k : ℕ) {x : ℕ} (hk : k ≤ 64) (hx : x < 2 ^ 64) :
    x &&& (2 ^ 64 - 1 - (2 ^ k - 1)) = x / 2 ^ k * 2 ^ k := by
  have hle : 2 ^ k ≤ 2 ^ 64 := Nat.pow_le_pow_right (by omega) hk
  have hpos : 0 < 2 ^ k := Nat.two_pow_pos k
  apply Nat.eq_of_testBit_eq
  intro i
  rw [show 2 ^ 64 - 1 - (2 ^ k - 1) = 2 ^ 64 - ((2 ^ k - 1) + 1) by omega, Nat.testBit_and,
    Nat.testBit_two_pow_sub_succ (by omega), Nat.testBit_two_pow_sub_one, Nat.testBit_mul_two_pow,
    Nat.testBit_div_two_pow]
  rcases Nat.lt_or_ge i k with hik | hik
  · simp [hik]
  · rw [Nat.sub_add_cancel hik]
    rcases Nat.lt_or_ge i 64 with hi | hi
    · simp [hi, hik]
    · have hbit : x.testBit i = false :=
        Nat.testBit_lt_two_pow (hx.trans_le (Nat.pow_le_pow_right (by omega) hi))
      simp [hbit]

/-- **Alignment to a power of two** rounds up. -/
theorem alignUp_two_pow (k : ℕ) {align addr : ℕ} (halign : align = 2 ^ k) (hk : k < 64)
    (haddr : addr + align ≤ 2 ^ 64) : alignUp align addr = (addr + align - 1) / align * align := by
  subst halign
  have hpos : 0 < 2 ^ k := Nat.two_pow_pos k
  unfold alignUp
  split_ifs with h
  · rw [Nat.mod_eq_of_lt (by omega), and_not_low k (by omega) (by omega)]
  · push Not at h
    obtain ⟨m, rfl⟩ := Nat.dvd_of_mod_eq_zero h
    rw [Nat.add_sub_assoc hpos, Nat.mul_add_div hpos, Nat.div_eq_of_lt (by omega), Nat.add_zero,
      Nat.mul_comm]

/-- **An aligned address** is the first multiple of the alignment from the address on. -/
theorem alignUp_spec (k : ℕ) {align addr : ℕ} (halign : align = 2 ^ k) (hk : k < 64)
    (haddr : addr + align ≤ 2 ^ 64) :
    align ∣ alignUp align addr ∧ addr ≤ alignUp align addr ∧ alignUp align addr < addr + align := by
  have hpos : 0 < align := halign ▸ Nat.two_pow_pos k
  have hmod := Nat.div_add_mod (addr + align - 1) align
  have hlt := Nat.mod_lt (addr + align - 1) hpos
  rw [Nat.mul_comm] at hmod
  rw [alignUp_two_pow k halign hk haddr]
  exact ⟨Nat.dvd_mul_left _ _, by omega, by omega⟩

/-- A multiple of the alignment that is not below the address is not below the aligned one. -/
theorem alignUp_le (k : ℕ) {align addr m : ℕ} (halign : align = 2 ^ k) (hk : k < 64)
    (hm : align ∣ m) (haddr : addr ≤ m) (hbound : m + align ≤ 2 ^ 64) : alignUp align addr ≤ m := by
  obtain ⟨hdvd, -, hlt⟩ :=
    alignUp_spec k halign hk (show addr + align ≤ 2 ^ 64 by omega)
  exact Nat.le_of_lt_add_of_dvd (by omega) hdvd hm

/-- An allocation moves the pointer by the size and what aligning takes. -/
theorem bumpAllocate_bounds (k : ℕ) {size align curr : ℕ} (halign : align = 2 ^ k) (hk : k < 64)
    (hcurr : curr + align + size < 2 ^ 64) :
    curr + size ≤ (bumpAllocate size align curr).2 ∧
      (bumpAllocate size align curr).2 < curr + size + align := by
  obtain ⟨-, hle, hlt⟩ := alignUp_spec k halign hk (show curr + align ≤ 2 ^ 64 by omega)
  rw [bumpAllocate, Nat.mod_eq_of_lt (by omega)]
  omega

/-! ### The framebuffer -/

/-- `fb_width` and `fb_height`: what the device reports, or 1280 by 800. -/
def fbDimensions (width height : ℕ) : ℕ × ℕ :=
  if width = 0 ∨ height = 0 then (1280, 800) else (width, height)

/-- `fb_width * fb_height * 4`, in 32 bits. -/
def fbSize (width height : ℕ) : ℕ :=
  (fbDimensions width height).1 * (fbDimensions width height).2 * 4 % 2 ^ 32

/-- The requests and responses that `gpu_init` allocates before the framebuffer. -/
def gpuRequests : List (ℕ × ℕ) := [(24, 8), (408, 8), (40, 8), (24, 8)]

/-- The block of the framebuffer, `bump_allocate(fb_size, 4096)`, when `gpu_init` starts with the
heap at `curr`. -/
def fbBlock (curr width height : ℕ) : Block :=
  (bumpAllocate (fbSize width height) 4096 (bumpAllocateAll gpuRequests curr)).1

/-- The block behind it, `bump_allocate(48, 8)` for the request that attaches the framebuffer. -/
def attachBlock (curr width height : ℕ) : Block :=
  (bumpAllocate 48 8
    (bumpAllocate (fbSize width height) 4096 (bumpAllocateAll gpuRequests curr)).2).1

theorem fbBlock_size (curr width height : ℕ) :
    (fbBlock curr width height).size = fbSize width height := rfl

/-- **The framebuffer is page aligned**, and starts at most two pages behind the heap's pointer. -/
theorem fbBlock_addr {curr : ℕ} (width height : ℕ) (hcurr : curr < 2 ^ 63) :
    ∃ k, (fbBlock curr width height).addr = 4096 * k ∧ curr ≤ 4096 * k ∧
      4096 * k < curr + 8192 := by
  have hstep {size c : ℕ} (hc : c + size < 2 ^ 63 + 1024) :
      c ≤ (bumpAllocate size 8 c).2 ∧ (bumpAllocate size 8 c).2 < c + size + 8 := by
    have := bumpAllocate_bounds 3 (show 8 = 2 ^ 3 by omega) (by omega)
      (show c + 8 + size < 2 ^ 64 by omega)
    omega
  have hreq : curr ≤ bumpAllocateAll gpuRequests curr ∧
      bumpAllocateAll gpuRequests curr < curr + 1024 := by
    simp only [gpuRequests, bumpAllocateAll]
    have h1 := @hstep 24 curr (by omega)
    have h2 := @hstep 408 (bumpAllocate 24 8 curr).2 (by omega)
    have h3 := @hstep 40 (bumpAllocate 408 8 (bumpAllocate 24 8 curr).2).2 (by omega)
    have h4 := @hstep 24 (bumpAllocate 40 8 (bumpAllocate 408 8 (bumpAllocate 24 8 curr).2).2).2
      (by omega)
    omega
  have haddr : (fbBlock curr width height).addr =
      alignUp 4096 (bumpAllocateAll gpuRequests curr) := by
    rw [fbBlock, bumpAllocate]
  obtain ⟨⟨k, hk⟩, hle, hlt⟩ := alignUp_spec 12 (show 4096 = 2 ^ 12 by omega) (by omega)
    (show bumpAllocateAll gpuRequests curr + 4096 ≤ 2 ^ 64 by omega)
  exact ⟨k, haddr.trans hk, by omega, by omega⟩

end Virtio
end AiOsExchange
