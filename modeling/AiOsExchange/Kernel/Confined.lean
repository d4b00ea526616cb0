/-
# What EL0 reaches

After `mmu_init_tables` and `mmu_map_framebuffer` the tables let EL0 through in two places only:
at the blocks of its region, each mapped to itself, and at `0x20000000`, where the pages of the
framebuffer are mapped (`el0Address_eq`).  The framebuffer is mapped by whole pages and
allocated by bytes, so a size that is no multiple of 4096 leaves EL0 the rest of the last page,
where the DMA heap goes on.  It is confined exactly when there is no rest.
-/

import AiOsExchange.Kernel.Mmu

namespace AiOsExchange
namespace Kernel

open Virtio

variable {img : Image} {mem : Memory}

/-! ### Entries -/

/-- Different entries are different words. -/
theorem entryAddr_eq_iff {t u : Table} {i j : ℕ} (hi : i < 512) (hj : j < 512) :
    img.addr u + 8 * j = img.addr t + 8 * i ↔ u = t ∧ j = i := by
  constructor
  · intro h
    obtain ⟨a, ha⟩ := img.tableAligned t
    obtain ⟨b, hb⟩ := img.tableAligned u
    have hut : u = t := img.apart u t (by omega)
    exact ⟨hut, by rw [hut] at h; omega⟩
  · rintro ⟨rfl, rfl⟩
    rfl

theorem entry_store {t u : Table} {i j : ℕ} (v : ℕ) (hi : i < 512) (hj : j < 512) :
    entry img (store img t i v mem) u j = if u = t ∧ j = i then v else entry img mem u j := by
  rw [entry, store, Function.update_apply]
  simp only [entryAddr_eq_iff hi hj, entry]

theorem entry_storeAll {t u : Table} {j : ℕ} (f : ℕ → ℕ) {is : List ℕ} (his : ∀ i ∈ is, i < 512)
    (hj : j < 512) :
    entry img (storeAll img t f is mem) u j =
      if u = t ∧ j ∈ is then f j else entry img mem u j := by
  induction is generalizing mem with
  | nil => simp [storeAll]
  | cons i is ih =>
      have hrest := @ih (store img t i (f i) mem) fun k hk => his k (List.mem_cons_of_mem _ hk)
      rw [storeAll, List.foldl_cons, ← storeAll, hrest, entry_store _ (his i List.mem_cons_self) hj]
      by_cases hu : u = t
      · by_cases hmem : j ∈ is
        · simp [hu, hmem]
        · by_cases hji : j = i <;> simp [hu, hmem, hji]
      · simp [hu]

/-- The descriptors of the first `n` pages. -/
theorem entry_mapPages (physAddr n : ℕ) {u : Table} {j : ℕ} (hj : j < 512) :
    entry img ((List.range n).foldl (mapPage img physAddr) mem) u j =
      if u = .l3Fb0 ∧ j < n then
        descriptor (physAddr + j * pageSize) attrNormal apRwAny descPage
      else if u = .l3Fb1 ∧ j + 512 < n then
        descriptor (physAddr + (j + 512) * pageSize) attrNormal apRwAny descPage
      else entry img mem u j := by
  induction n with
  | zero => simp
  | succ n ih =>
      rw [List.range_succ, List.foldl_append, List.foldl_cons, List.foldl_nil, mapPage]
      have hlt : j ≠ n → (j < n + 1 ↔ j < n) := by omega
      have hlt' : j + 512 ≠ n → (j + 512 < n + 1 ↔ j + 512 < n) := by omega
      rcases Nat.lt_or_ge n 512 with h1 | h1
      · -- page `n` goes to entry `n` of the first table
        have hne : ¬ j + 512 < n := by omega
        have hne' : ¬ j + 512 < n + 1 := by omega
        rw [if_pos h1, entry_store _ h1 hj, ih]
        by_cases hjn : j = n
        · subst hjn
          simp [hne]
        · simp [hjn, hne, hne', hlt hjn]
      · have hne : j ≠ n := by omega
        rw [if_neg (by omega)]
        rcases Nat.lt_or_ge n 1024 with h2 | h2
        · -- to entry `n - 512` of the second
          rw [if_pos h2, entry_store _ (by omega) hj, ih]
          by_cases hjn : j = n - 512
          · have hn : n - 512 + 512 = n := by omega
            by_cases hu : u = .l3Fb1
            · simp [hu, hjn, hn]
            · simp [hu, hlt hne]
          · simp [hjn, hlt hne, hlt' (show j + 512 ≠ n by omega)]
        · -- to none
          rw [if_neg (by omega), ih]
          simp [hlt hne, hlt' (show j + 512 ≠ n by omega)]

/-- What the tables hold once the `n` pages from `physAddr` on are mapped. -/
structure Filled (img : Image) (physAddr n : ℕ) (mem : Memory) : Prop where
  l1 : ∀ j < 512, entry img mem .l1 j =
    if j = 0 then tableDescriptor (img.addr .l2User)
    else if j = 1 then tableDescriptor (img.addr .l2Kernel) else 0
  l2Kernel : ∀ j < 512, entry img mem .l2Kernel j =
    if j = 129 then descriptor 0x50200000 attrDevice apRwEl1 descBlock
    else if j = 128 then descriptor 0x50000000 attrDevice apRwEl1 descBlock
    else if idxStart img ≤ j ∧ j < idxEnd img ∧ j < 64 then ramBlock apRwAny j
    else if j < 64 then ramBlock apRwEl1 j else 0
  l2User : ∀ j < 512, entry img mem .l2User j =
    if j = 257 then tableDescriptor (img.addr .l3Fb1)
    else if j = 256 then tableDescriptor (img.addr .l3Fb0)
    else if j = 80 then tableDescriptor (img.addr .l3Mmio)
    else if j = 72 then descriptor 0x09000000 attrDevice apRwEl1 descBlock
    else if j = 64 then descriptor 0x08000000 attrDevice apRwEl1 descBlock else 0
  l3Mmio : ∀ j < 512, entry img mem .l3Mmio j =
    if j < 32 then descriptor (0x0a000000 + j * 4096) attrDevice apRwEl1 descPage else 0
  l3Fb0 : ∀ j < 512, entry img mem .l3Fb0 j =
    if j < n then descriptor (physAddr + j * pageSize) attrNormal apRwAny descPage else 0
  l3Fb1 : ∀ j < 512, entry img mem .l3Fb1 j =
    if j + 512 < n then descriptor (physAddr + (j + 512) * pageSize) attrNormal apRwAny descPage
    else 0

/-- The tables of a booted machine. -/
def bootTables (img : Image) (physAddr size : ℕ) (mem : Memory) : Memory :=
  mmuMapFramebuffer img physAddr size (mmuInitTables img mem)

theorem filled_bootTables {physAddr : ℕ} (size : ℕ) (hphys : physAddr ≠ 0) :
    Filled img physAddr ((size + pageSize - 1) / pageSize) (bootTables img physAddr size mem) := by
  have hzero : ∀ i ∈ List.range 512, i < 512 := fun i hi => List.mem_range.1 hi
  have hram : ∀ i ∈ List.range 64, i < 512 := fun i hi => by
    have := List.mem_range.1 hi
    omega
  have hmmio : ∀ i ∈ List.range 32, i < 512 := fun i hi => by
    have := List.mem_range.1 hi
    omega
  have hregion : ∀ i ∈ List.range' (idxStart img) (min (idxEnd img) 64 - idxStart img), i < 512 := by
    intro i hi
    have := List.mem_range'_1.1 hi
    omega
  have hmem (j : ℕ) : j ∈ List.range' (idxStart img) (min (idxEnd img) 64 - idxStart img) ↔
      idxStart img ≤ j ∧ j < idxEnd img ∧ j < 64 := by
    rw [List.mem_range'_1]
    omega
  constructor
  all_goals
    intro j hj
    simp only [bootTables, mmuMapFramebuffer, if_neg hphys, mmuInitTables, List.foldl_cons,
      List.foldl_nil, entry_mapPages _ _ hj, entry_store _ (show 256 < 512 by omega) hj,
      entry_store _ (show 257 < 512 by omega) hj, entry_store _ (show 1 < 512 by omega) hj,
      entry_store _ (show 0 < 512 by omega) hj, entry_store _ (show 64 < 512 by omega) hj,
      entry_store _ (show 72 < 512 by omega) hj, entry_store _ (show 80 < 512 by omega) hj,
      entry_store _ (show 128 < 512 by omega) hj, entry_store _ (show 129 < 512 by omega) hj,
      entry_storeAll _ hzero hj, entry_storeAll _ hram hj, entry_storeAll _ hmmio hj,
      entry_storeAll _ hregion hj, hmem, List.mem_range, hj, reduceCtorEq, false_and, true_and,
      and_true, if_false, if_true]

/-! ### Descriptors -/

/-- The flags are below the page. -/
theorem or_flags {a f : ℕ} (ha : 4096 ∣ a) (hf : f < 4096) : a ||| f = a + f := by
  obtain ⟨k, rfl⟩ := ha
  exact (Nat.two_pow_add_eq_or_of_lt (i := 12) hf k).symm

theorem tableDescriptor_eq {a : ℕ} (ha : 4096 ∣ a) : tableDescriptor a = a + 3 := by
  rw [tableDescriptor, Nat.or_assoc]
  exact or_flags ha (by decide)

theorem descriptor_eq {a attr ap kind f : ℕ} (ha : 4096 ∣ a)
    (hflags : attr ||| (ap ||| (descAf ||| (kind ||| descValid))) = f) (hf : f < 4096) :
    descriptor a attr ap kind = a + f := by
  rw [descriptor, Nat.or_assoc, Nat.or_assoc, Nat.or_assoc, Nat.or_assoc, hflags]
  exact or_flags ha hf

section
variable {va base a : ℕ} {shift : ℕ} {shifts : List ℕ}

theorem walkFrom_zero (h : mem (base + 8 * (va / 2 ^ shift % 512)) = 0) :
    walkFrom mem va base (shift :: shifts) = none := by
  simp [walkFrom, h]

theorem walkFrom_table (h : mem (base + 8 * (va / 2 ^ shift % 512)) = tableDescriptor a)
    (ha : 4096 ∣ a) (hlt : a < 2 ^ 48) (hs : shifts ≠ []) :
    walkFrom mem va base (shift :: shifts) = walkFrom mem va a shifts := by
  rw [tableDescriptor_eq ha] at h
  obtain ⟨k, rfl⟩ := ha
  simp only [walkFrom, h]
  rw [if_neg (by omega), if_neg hs, if_pos (by omega)]
  congr 1
  omega

/-- Above the last level a block ends the walk, at the last level a page. -/
theorem walkFrom_leaf {attr ap kind f : ℕ}
    (h : mem (base + 8 * (va / 2 ^ shift % 512)) = descriptor a attr ap kind)
    (hflags : attr ||| (ap ||| (descAf ||| (kind ||| descValid))) = f) (hf : f < 4096)
    (hkind : f % 4 = if shifts = [] then 3 else 1) (ha : 2 ^ shift ∣ a) (hshift : 12 ≤ shift)
    (hlt : a + 4096 ≤ 2 ^ 48) :
    walkFrom mem va base (shift :: shifts) = some (a + va % 2 ^ shift, a + f) := by
  have hpage : 4096 ∣ a := (Nat.pow_dvd_pow 2 hshift).trans ha
  rw [descriptor_eq hpage hflags hf] at h
  have hpos : 0 < 2 ^ shift := Nat.two_pow_pos shift
  have haddr : (a + f) % 2 ^ 48 / 2 ^ shift * 2 ^ shift = a := by
    have hle : 2 ^ 12 ≤ 2 ^ shift := Nat.pow_le_pow_right (by omega) hshift
    obtain ⟨k, rfl⟩ := ha
    rw [Nat.mod_eq_of_lt (by omega), Nat.mul_add_div hpos, Nat.div_eq_of_lt (by omega),
      Nat.add_zero, Nat.mul_comm]
  have hdvd : 2 ∣ a := (by decide : 2 ∣ 4096).trans hpage
  obtain ⟨k, hk⟩ := hpage
  simp only [walkFrom, h, haddr]
  split_ifs at hkind ⊢ with hodd
  all_goals first | rfl | omega

/-- EL0 gets through a leaf whose `AP[1]` is set. -/
theorem el0Of_leaf {x f : ℕ} (ha : 4096 ∣ a) :
    el0Of (some (x, a + f)) = if f / 64 % 2 = 1 ∧ f / 1024 % 2 = 1 then some x else none := by
  obtain ⟨k, rfl⟩ := ha
  have h64 : (4096 * k + f) / 64 % 2 = f / 64 % 2 := by omega
  have h1024 : (4096 * k + f) / 1024 % 2 = f / 1024 % 2 := by omega
  simp only [el0Of, Option.bind_some, h64, h1024]

theorem el0Of_none : el0Of none = none := rfl

/-- A leaf for EL1 alone. -/
theorem el0Of_el1 {attr kind : ℕ} (hattr : attr = attrDevice ∨ attr = attrNormal)
    (hkind : kind = if shifts = [] then descPage else descBlock)
    (h : mem (base + 8 * (va / 2 ^ shift % 512)) = descriptor a attr apRwEl1 kind)
    (ha : 2 ^ shift ∣ a) (hshift : 12 ≤ shift) (hlt : a + 4096 ≤ 2 ^ 48) :
    el0Of (walkFrom mem va base (shift :: shifts)) = none := by
  have hpage : 4096 ∣ a := (Nat.pow_dvd_pow 2 hshift).trans ha
  rcases hattr with rfl | rfl <;> split_ifs at hkind with hs <;> subst hkind
  · rw [walkFrom_leaf (f := 1027) h rfl (by omega) (by rw [if_pos hs]) ha hshift hlt,
      el0Of_leaf hpage, if_neg (by omega)]
  · rw [walkFrom_leaf (f := 1025) h rfl (by omega) (by rw [if_neg hs]) ha hshift hlt,
      el0Of_leaf hpage, if_neg (by omega)]
  · rw [walkFrom_leaf (f := 1031) h rfl (by omega) (by rw [if_pos hs]) ha hshift hlt,
      el0Of_leaf hpage, if_neg (by omega)]
  · rw [walkFrom_leaf (f := 1029) h rfl (by omega) (by rw [if_neg hs]) ha hshift hlt,
      el0Of_leaf hpage, if_neg (by omega)]

/-- A leaf for EL0 and EL1. -/
theorem el0Of_any {kind : ℕ} (hkind : kind = if shifts = [] then descPage else descBlock)
    (h : mem (base + 8 * (va / 2 ^ shift % 512)) = descriptor a attrNormal apRwAny kind)
    (ha : 2 ^ shift ∣ a) (hshift : 12 ≤ shift) (hlt : a + 4096 ≤ 2 ^ 48) :
    el0Of (walkFrom mem va base (shift :: shifts)) = some (a + va % 2 ^ shift) := by
  have hpage : 4096 ∣ a := (Nat.pow_dvd_pow 2 hshift).trans ha
  split_ifs at hkind with hs <;> subst hkind
  · rw [walkFrom_leaf (f := 1095) h rfl (by omega) (by rw [if_pos hs]) ha hshift hlt,
      el0Of_leaf hpage, if_pos (by omega)]
  · rw [walkFrom_leaf (f := 1093) h rfl (by omega) (by rw [if_neg hs]) ha hshift hlt,
      el0Of_leaf hpage, if_pos (by omega)]

end

/-! ### The walk of EL0 -/

section
variable {physAddr n va : ℕ}

/-- The tables are in the first 48 bits. -/
theorem Image.addr_lt (img : Image) (t : Table) : img.addr t < 2 ^ 48 := by
  have := img.tableBounds t
  have := img.startLe
  have := img.endLe
  omega

/-- A page of the framebuffer. -/
theorem el0Of_page {t : Table} {k : ℕ} (hphys : 4096 ∣ physAddr)
    (hlt : physAddr + 4096 * n ≤ 2 ^ 48)
    (h : entry img mem t (va / 2 ^ 12 % 512) = if va / 2 ^ 12 % 512 + k < n then
      descriptor (physAddr + (va / 2 ^ 12 % 512 + k) * pageSize) attrNormal apRwAny descPage else 0) :
    el0Of (walkFrom mem va (img.addr t) [12]) = if va / 2 ^ 12 % 512 + k < n then
      some (physAddr + (va / 2 ^ 12 % 512 + k) * 4096 + va % 4096) else none := by
  split_ifs at h ⊢ with hj
  · have hdvd : 2 ^ 12 ∣ physAddr + (va / 2 ^ 12 % 512 + k) * pageSize :=
      Nat.dvd_add hphys (Nat.dvd_mul_left ..)
    have hle : physAddr + (va / 2 ^ 12 % 512 + k) * pageSize + 4096 ≤ 2 ^ 48 := by
      rw [show pageSize = 4096 from rfl]
      omega
    exact el0Of_any rfl h hdvd (by omega) hle
  · rw [walkFrom_zero h, el0Of_none]

/-- EL0 below the first GB: nothing but the framebuffer. -/
theorem el0Of_user (hf : Filled img physAddr n mem) (hphys : 4096 ∣ physAddr)
    (hlt : physAddr + 4096 * n ≤ 2 ^ 48) (hn : n ≤ 1024) (hva : va < 2 ^ 30) :
    el0Of (walkFrom mem va (img.addr .l2User) [21, 12]) =
      if 0x20000000 ≤ va ∧ va < 0x20000000 + 4096 * n then some (physAddr + (va - 0x20000000))
      else none := by
  have hlast : va / 2 ^ 12 % 512 < 512 := Nat.mod_lt _ (by omega)
  have h := hf.l2User (va / 2 ^ 21 % 512) (Nat.mod_lt _ (by omega))
  split_ifs at h with h257 h256 h80 h72 h64
  · rw [walkFrom_table h (img.tableAligned _) (img.addr_lt _) (List.cons_ne_nil _ _),
      el0Of_page hphys hlt (hf.l3Fb1 _ hlast)]
    exact if_congr (by omega) (congrArg some (by omega)) rfl
  · rw [walkFrom_table h (img.tableAligned _) (img.addr_lt _) (List.cons_ne_nil _ _),
      el0Of_page (k := 0) hphys hlt (hf.l3Fb0 _ hlast)]
    exact if_congr (by omega) (congrArg some (by omega)) rfl
  · rw [walkFrom_table h (img.tableAligned _) (img.addr_lt _) (List.cons_ne_nil _ _),
      if_neg (by omega)]
    have h3 := hf.l3Mmio (va / 2 ^ 12 % 512) hlast
    split_ifs at h3 with hmmio
    · exact el0Of_el1 (.inl rfl) rfl h3 (by omega) (by omega) (by omega)
    · rw [walkFrom_zero h3, el0Of_none]
  · rw [if_neg (by omega)]
    exact el0Of_el1 (.inl rfl) rfl h (by omega) (by omega) (by omega)
  · rw [if_neg (by omega)]
    exact el0Of_el1 (.inl rfl) rfl h (by omega) (by omega) (by omega)
  · rw [if_neg (by omega), walkFrom_zero h, el0Of_none]

/-- EL0 in the second GB: its region, each byte at its own address. -/
theorem el0Of_kernel (hf : Filled img physAddr n mem) (hva : 2 ^ 30 ≤ va) (hva' : va < 2 ^ 31) :
    el0Of (walkFrom mem va (img.addr .l2Kernel) [21, 12]) =
      if img.el0Start ≤ va ∧ va < img.el0End then some va else none := by
  have hbounds := img.tableBounds .l1
  have hend := img.endLe
  have hle := img.startLe
  obtain ⟨s, hs⟩ := img.startAligned
  obtain ⟨e, he⟩ := img.endAligned
  have hstart : idxStart img = s - 512 := by
    rw [idxStart]
    omega
  have hidxEnd : idxEnd img = e - 512 := by
    rw [idxEnd]
    omega
  have h := hf.l2Kernel (va / 2 ^ 21 % 512) (Nat.mod_lt _ (by omega))
  rw [hstart, hidxEnd] at h
  split_ifs at h with h129 h128 hregion hram
  · rw [if_neg (by omega)]
    exact el0Of_el1 (.inl rfl) rfl h (by omega) (by omega) (by omega)
  · rw [if_neg (by omega)]
    exact el0Of_el1 (.inl rfl) rfl h (by omega) (by omega) (by omega)
  · rw [if_pos (by omega), el0Of_any rfl h (by omega) (by omega) (by omega)]
    exact congrArg some (by omega)
  · rw [if_neg (by omega)]
    exact el0Of_el1 (.inr rfl) rfl h (by omega) (by omega) (by omega)
  · rw [if_neg (by omega), walkFrom_zero h, el0Of_none]

/-- **What EL0 reaches**: its region at its own addresses and the framebuffer's pages, whole. -/
theorem el0Address_eq (hf : Filled img physAddr n mem) (hphys : 4096 ∣ physAddr)
    (hlt : physAddr + 4096 * n ≤ 2 ^ 48) (hn : n ≤ 1024) :
    el0Address img mem va =
      if img.el0Start ≤ va ∧ va < img.el0End then some va
      else if 0x20000000 ≤ va ∧ va < 0x20000000 + 4096 * n then
        some (physAddr + (va - 0x20000000))
      else none := by
  have hbounds := img.tableBounds .l1
  have hend := img.endLe
  rw [el0Address, walk]
  by_cases h39 : va < 2 ^ 39
  · rw [if_pos h39]
    have h := hf.l1 (va / 2 ^ 30 % 512) (Nat.mod_lt _ (by omega))
    by_cases h0 : va / 2 ^ 30 % 512 = 0
    · rw [if_pos h0] at h
      rw [walkFrom_table h (img.tableAligned _) (img.addr_lt _) (List.cons_ne_nil _ _),
        el0Of_user hf hphys hlt hn (by omega), if_neg (c := img.el0Start ≤ va ∧ _) (by omega)]
    · by_cases h1 : va / 2 ^ 30 % 512 = 1
      · rw [if_neg h0, if_pos h1] at h
        rw [walkFrom_table h (img.tableAligned _) (img.addr_lt _) (List.cons_ne_nil _ _),
          el0Of_kernel hf (by omega) (by omega), if_neg (c := 0x20000000 ≤ va ∧ _) (by omega)]
      · rw [if_neg h0, if_neg h1] at h
        rw [walkFrom_zero h, el0Of_none, if_neg (by omega), if_neg (by omega)]
  · rw [if_neg h39, el0Of_none, if_neg (by omega), if_neg (by omega)]

end

/-! ### Confinement -/

/-- Memory that EL0 must not reach when the framebuffer is `fb`: device registers, the kernel's
RAM, the tables in it, and all of the heap but the framebuffer. -/
def Protected (img : Image) (fb : Block) (pa : ℕ) : Prop :=
  pa < 0x40000000 ∨
    (0x40000000 ≤ pa ∧ pa < 0x48000000 ∧ ¬(img.el0Start ≤ pa ∧ pa < img.el0End)) ∨
    (∃ t, img.addr t ≤ pa ∧ pa < img.addr t + 4096) ∨
    (dmaHeapStart ≤ pa ∧ ¬(fb.addr ≤ pa ∧ pa < fb.addr + fb.size))

/-- EL0 reaches bytes of its region at their own addresses, bytes of the framebuffer from
`0x20000000` on, and nothing protected. -/
def Confined (img : Image) (fb : Block) (mem : Memory) : Prop :=
  (∀ va pa, el0Address img mem va = some pa →
    (img.el0Start ≤ va ∧ va < img.el0End ∧ pa = va) ∨
      ∃ o < fb.size, va = 0x20000000 + o ∧ pa = fb.addr + o) ∧
  ∀ va pa, Protected img fb pa → el0Address img mem va ≠ some pa

section
variable {fb : Block}

/-- Neither the EL0 region nor the framebuffer is protected. -/
theorem not_protected {pa : ℕ} (hfb : dmaHeapStart ≤ fb.addr)
    (hpa : (img.el0Start ≤ pa ∧ pa < img.el0End) ∨ (fb.addr ≤ pa ∧ pa < fb.addr + fb.size)) :
    ¬Protected img fb pa := by
  have hbounds := img.tableBounds
  have hend := img.endLe
  have hle := img.startLe
  have hl1 := hbounds .l1
  rw [dmaHeapStart] at hfb
  rintro (hdev | hram | ⟨t, ht⟩ | hheap)
  · omega
  · omega
  · have := hbounds t
    omega
  · rw [dmaHeapStart] at hheap
    omega

/-- A framebuffer of whole pages is confined. -/
theorem confined_of_dvd {n : ℕ} (hf : Filled img fb.addr n mem) (hfb : dmaHeapStart ≤ fb.addr)
    (hphys : 4096 ∣ fb.addr) (hlt : fb.addr + 4096 * n ≤ 2 ^ 48) (hn : n ≤ 1024)
    (hsize : fb.size = 4096 * n) : Confined img fb mem := by
  have hreach {va pa : ℕ} (h : el0Address img mem va = some pa) :
      (img.el0Start ≤ va ∧ va < img.el0End ∧ pa = va) ∨
        ∃ o < fb.size, va = 0x20000000 + o ∧ pa = fb.addr + o := by
    rw [el0Address_eq hf hphys hlt hn] at h
    split_ifs at h with hregion hpages
    · exact .inl ⟨hregion.1, hregion.2, (Option.some.inj h).symm⟩
    · exact .inr ⟨va - 0x20000000, by omega, by omega, (Option.some.inj h).symm⟩
  refine ⟨fun va pa => hreach, fun va pa hprot h => not_protected hfb ?_ hprot⟩
  obtain ⟨hlo, hhi, rfl⟩ | ⟨o, ho, -, rfl⟩ := hreach h
  · exact .inl ⟨hlo, hhi⟩
  · exact .inr ⟨Nat.le_add_right _ _, by omega⟩

/-- The rest of the last page is not. -/
theorem el0Address_rest {n : ℕ} (hf : Filled img fb.addr n mem) (hphys : 4096 ∣ fb.addr)
    (hlt : fb.addr + 4096 * n ≤ 2 ^ 48) (hn : n ≤ 1024) (hrest : fb.size < 4096 * n) :
    el0Address img mem (0x20000000 + fb.size) = some (fb.addr + fb.size) := by
  have hbounds := img.tableBounds .l1
  rw [el0Address_eq hf hphys hlt hn, if_neg (by omega), if_pos (by omega),
    Nat.add_sub_cancel_left]

theorem not_confined_of_rest {n : ℕ} (hf : Filled img fb.addr n mem) (hphys : 4096 ∣ fb.addr)
    (hlt : fb.addr + 4096 * n ≤ 2 ^ 48) (hn : n ≤ 1024) (hrest : fb.size < 4096 * n) :
    ¬Confined img fb mem := by
  have hbounds := img.tableBounds .l1
  rintro ⟨hreach, -⟩
  obtain ⟨hlo, -⟩ | ⟨o, ho, hva, -⟩ := hreach _ _ (el0Address_rest hf hphys hlt hn hrest)
  · omega
  · omega

end

/-- **EL0 is confined exactly when the framebuffer is a whole number of pages**, for every
placement of the EL0 region, every pointer of the heap when `gpu_init` starts and every size up to
4 MB. -/
theorem confined_iff_whole_pages (img : Image) (mem : Memory) (curr width height : ℕ)
    (hstart : dmaHeapStart ≤ curr) (hend : curr ≤ dmaHeapEnd) (hsize : 0 < fbSize width height)
    (hfits : fbSize width height ≤ 0x400000) :
    Confined img (fbBlock curr width height)
        (bootTables img (fbBlock curr width height).addr (fbBlock curr width height).size mem) ↔
      4096 ∣ fbSize width height := by
  rw [dmaHeapEnd] at hend
  obtain ⟨k, haddr, hle, hlt⟩ := fbBlock_addr width height (show curr < 2 ^ 63 by omega)
  have hphys : 4096 ∣ (fbBlock curr width height).addr := ⟨k, haddr⟩
  have hfb : dmaHeapStart ≤ (fbBlock curr width height).addr := by omega
  have hne : (fbBlock curr width height).addr ≠ 0 := by
    rw [dmaHeapStart] at hfb
    omega
  have hf : Filled img (fbBlock curr width height).addr
      (((fbBlock curr width height).size + 4096 - 1) / 4096)
      (bootTables img (fbBlock curr width height).addr (fbBlock curr width height).size mem) :=
    filled_bootTables _ hne
  have hsz := fbBlock_size curr width height
  constructor
  · intro hconf
    by_contra hrest
    exact not_confined_of_rest hf hphys (by omega) (by omega) (by omega) hconf
  · rintro ⟨n, hn⟩
    exact confined_of_dvd hf hfb hphys (by omega) (by omega) (by omega)

/-- An image with the EL0 region in the second block of 2 MB. -/
def smallImage : Image where
  addr
    | .l1 => 0x40100000
    | .l2User => 0x40101000
    | .l2Kernel => 0x40102000
    | .l3Mmio => 0x40103000
    | .l3Fb0 => 0x40104000
    | .l3Fb1 => 0x40105000
  el0Start := 0x40200000
  el0End := 0x40400000
  tableAligned t := by cases t <;> decide
  apart t u := by cases t <;> cases u <;> simp
  tableBounds t := by cases t <;> decide
  startAligned := by decide
  endAligned := by decide
  startLe := by decide
  endLe := by decide

/-- The framebuffer of a device that reports no size. -/
theorem confined_default : 4096 ∣ fbSize 0 0 ∧
    Confined smallImage (fbBlock dmaHeapStart 0 0)
      (bootTables smallImage (fbBlock dmaHeapStart 0 0).addr (fbBlock dmaHeapStart 0 0).size
        fun _ => 0) := by
  have hdvd : 4096 ∣ fbSize 0 0 := by decide
  exact ⟨hdvd, (confined_iff_whole_pages smallImage (fun _ => 0) dmaHeapStart 0 0 (by decide)
    (by decide) (by decide) (by decide)).2 hdvd⟩

/-- **The requests of the GPU driver are open to EL0** on a screen of 800 by 600. -/
theorem attach_block_open :
    el0Address smallImage
        (bootTables smallImage (fbBlock dmaHeapStart 800 600).addr
          (fbBlock dmaHeapStart 800 600).size fun _ => 0)
        (0x20000000 + fbSize 800 600) = some (attachBlock dmaHeapStart 800 600).addr ∧
      ¬Confined smallImage (fbBlock dmaHeapStart 800 600)
        (bootTables smallImage (fbBlock dmaHeapStart 800 600).addr
          (fbBlock dmaHeapStart 800 600).size fun _ => 0) := by
  have haddr : (fbBlock dmaHeapStart 800 600).addr = 0x50001000 := by decide
  have hattach : (attachBlock dmaHeapStart 800 600).addr = 0x50001000 + 1920000 := by decide
  have hsize : (fbBlock dmaHeapStart 800 600).size = 1920000 := by decide
  have hf : Filled smallImage (fbBlock dmaHeapStart 800 600).addr
      (((fbBlock dmaHeapStart 800 600).size + 4096 - 1) / 4096)
      (bootTables smallImage (fbBlock dmaHeapStart 800 600).addr
        (fbBlock dmaHeapStart 800 600).size fun _ => 0) :=
    filled_bootTables _ (by omega)
  have hphys : 4096 ∣ (fbBlock dmaHeapStart 800 600).addr := by
    rw [haddr]
    decide
  refine ⟨?_, not_confined_of_rest hf hphys (by omega) (by omega) (by omega)⟩
  have hrest := el0Address_rest hf hphys (by omega) (by omega) (by omega)
  rw [← fbBlock_size dmaHeapStart, hrest]
  exact congrArg some (by omega)

end Kernel
end AiOsExchange
