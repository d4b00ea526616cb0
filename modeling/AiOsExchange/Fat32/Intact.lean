/-
# New files leave the others alone

Runs of `fs_write_file_content` of `modules/fs/fat32.c` on a volume in order (`Consistent`), with
a block device that does not fail.  A write takes a cluster that is free in the FAT, so one that
neither the root directory nor an entry has; it fills that cluster's first sector and, if it
finds one, a free slot in the first sector of the root directory (`Grows`).  The FAT sector, the
data sector and the directory sector are not the same on any volume, and so the entries that are
there keep their slots and their clusters, and the new one shares no cluster with them.

A deleted slot in front may be taken again and the end mark may move, which is where the zeros
behind it are needed: the slot after the new one is the end mark then.
-/

import AiOsExchange.Fat32.Tree
import AiOsExchange.Lib.Run

namespace AiOsExchange
namespace Fat32

open CMemory Chains Runs

namespace FatState

/-- Slot `n` of the root directory is filled in `s'`, for a file in a cluster that was free. -/
structure Fresh (s s' : FatState) (count : ℕ) (root : List ℕ) (n : ℕ) : Prop where
  free : freeSlot (s.disk s.rootSector).buf = some n
  first : s'.slotByte root n 0 ≠ 0
  attr : s'.slotByte root n 11 = 0x20
  valid : ValidCluster count (s'.cluster root n)
  unused : s.entry (s'.cluster root n) = 0
  taken : s'.entry (s'.cluster root n) = 0x0FFFFFFF

/-- **What a write does to a volume**: the clusters in use stay, but for the slots of the first
directory sector, and at most one of these is filled. -/
structure Grows (s s' : FatState) (count : ℕ) (root : List ℕ) : Prop where
  geometry : s'.toGeometry = s.toGeometry
  entry : ∀ c, ValidCluster count c → s.entry c ≠ 0 → s'.entry c = s.entry c
  sector : ∀ c j, ValidCluster count c → s.entry c ≠ 0 → j < s.sectorsPerCluster →
    s.clusterToSector c + j ≠ s.rootSector →
    s'.disk (s.clusterToSector c + j) = s.disk (s.clusterToSector c + j)
  slot : ∀ n < 16, s.Kept s' root n ∨ s.Fresh s' count root n

end FatState

section
variable {s s' : FatState} {count n : ℕ} {root dir chain : List ℕ}

/-! ### What a volume that grows keeps -/

/-- The free slot is the first that is unused or deleted. -/
theorem FatState.Fresh.slot_free (h : s.Fresh s' count root n) (hw : s.WellFormed count root) :
    n < 16 ∧ (s.slotByte root n 0 = 0 ∨ s.slotByte root n 0 = 0xE5) ∧
      ∀ j < n, s.slotByte root j 0 ≠ 0 := by
  obtain ⟨hn, hfree, hbefore⟩ := freeSlot_eq_some_iff.1 h.free
  have hbyte {j : ℕ} (hj : j < 16) : s.slotByte root j 0 = (s.disk s.rootSector).buf (32 * j) := by
    rw [FatState.slotByte, hw.dirSector_eq hj, Nat.mod_eq_of_lt hj, Nat.add_zero]
  refine ⟨hn, by rwa [hbyte hn], fun j hj => ?_⟩
  rw [hbyte (by omega)]
  exact (hbefore j hj).1

/-- A slot in use is not the one that is filled. -/
theorem FatState.Live.not_fresh (h : s.Live root n) (hw : s.WellFormed count root) :
    ¬ s.Fresh s' count root n := by
  intro hf
  rcases (hf.slot_free hw).2.1 with h0 | he5
  · exact h.shown n (Nat.le_refl n) h0
  · exact h.kept he5

theorem FatState.Grows.slots_eq (h : s.Grows s' count root) : s'.slots dir = s.slots dir := by
  rw [FatState.slots, FatState.slots, h.geometry]

theorem FatState.Grows.lt_slots (h : s.Grows s' count root) (hl : s'.Live dir n) :
    n < s.slots dir := by
  rw [← h.slots_eq]
  exact hl.lt

/-- Sectors of clusters in use stay, but for the first of the root directory. -/
theorem FatState.Grows.chainSector_eq (h : s.Grows s' count root) {q : ℕ}
    (hq : q / s.sectorsPerCluster < chain.length) (hw : s.WellFormed count root)
    (huse : ∀ c ∈ chain, ValidCluster count c ∧ s.entry c ≠ 0)
    (hne : s.chainSector chain q ≠ s.rootSector) :
    s'.disk (s'.chainSector chain q) = s.disk (s.chainSector chain q) := by
  obtain ⟨hv, ht⟩ := huse _ (List.getElem_mem hq)
  rw [Geometry.chainSector_eq hq] at hne
  rw [h.geometry, Geometry.chainSector_eq hq]
  exact h.sector _ _ hv ht (Nat.mod_lt _ hw.layout.sectorsPerCluster_pos) hne

/-- Clusters apart from the root directory do not have its first sector. -/
theorem FatState.InUse.chainSector_ne (huse : s.InUse count root chain)
    (hw : s.WellFormed count root) {q : ℕ} (hq : q / s.sectorsPerCluster < chain.length) :
    s.chainSector chain q ≠ s.rootSector := by
  obtain ⟨hv, -, hroot⟩ := huse _ (List.getElem_mem hq)
  rw [Geometry.chainSector_eq hq]
  intro heq
  have hinj := @Geometry.WellFormed.sector_inj _ _ hw.layout _ _ (q % s.sectorsPerCluster) 0 hv
    hw.rootCluster_valid (Nat.mod_lt _ hw.layout.sectorsPerCluster_pos)
    hw.layout.sectorsPerCluster_pos
  rw [Nat.add_zero] at hinj
  exact hroot ((hinj heq).1 ▸ hw.rootChain.mem_start)

/-- **The bytes of clusters in use stay.** -/
theorem FatState.Grows.fileByte_eq (h : s.Grows s' count root) (hw : s.WellFormed count root)
    (huse : s.InUse count root chain) {k : ℕ} (hk : k < 512 * (s.sectorsPerCluster * chain.length)) :
    s'.fileByte chain k = s.fileByte chain k := by
  have hq : k / 512 / s.sectorsPerCluster < chain.length := by
    rw [Nat.div_lt_iff_lt_mul hw.layout.sectorsPerCluster_pos, Nat.mul_comm]
    omega
  rw [FatState.fileByte, FatState.fileByte, h.chainSector_eq hq hw (fun c hc =>
    ⟨(huse c hc).1, (huse c hc).2.1⟩) (huse.chainSector_ne hw hq)]

/-- **The slots of a directory are kept**, but for one of the root directory that is filled. -/
theorem FatState.Grows.kept_or_fresh (h : s.Grows s' count root) (hs : s.Consistent count root)
    (hd : s.Directory root dir) (hn : n < s.slots dir) :
    s.Kept s' dir n ∨ dir = root ∧ s.Fresh s' count root n := by
  have hw := hs.volume
  have hq := FatState.cluster_of_slot hw.layout hn
  rcases hs.inUse_of_directory hd with rfl | huse
  · rcases Nat.lt_or_ge n 16 with hlt | hge
    · exact (h.slot n hlt).imp_right fun hf => ⟨rfl, hf⟩
    · have hne : s.chainSector dir (n / 16) ≠ s.rootSector := by
        intro heq
        have h0 := Geometry.chainSector_zero (g := s.toGeometry) hw.rootChain
        have hzero : 0 / s.sectorsPerCluster < dir.length := by
          rw [Nat.zero_div]
          exact hw.rootChain.length_pos
        have := hw.layout.chainSector_inj hw.root_valid hw.rootChain.nodup hq hzero
          (heq.trans h0.symm)
        omega
      left
      intro k _
      rw [FatState.slotByte, FatState.slotByte, FatState.dirSector, FatState.dirSector,
        h.chainSector_eq hq hw (fun c hc => ⟨hw.root_valid c hc, hw.root_taken c hc⟩) hne]
  · left
    intro k _
    rw [FatState.slotByte, FatState.slotByte, FatState.dirSector, FatState.dirSector,
      h.chainSector_eq hq hw (fun c hc => ⟨(huse c hc).1, (huse c hc).2.1⟩)
        (huse.chainSector_ne hw hq)]

/-- A slot in use is kept. -/
theorem FatState.Grows.kept_of_live (h : s.Grows s' count root) (hs : s.Consistent count root)
    (hd : s.Directory root dir) (hl : s.Live dir n) : s.Kept s' dir n := by
  rcases h.kept_or_fresh hs hd hl.lt with hk | ⟨rfl, hf⟩
  · exact hk
  · exact absurd hf (hl.not_fresh hs.volume)

/-- **A slot in use stays in use.** -/
theorem FatState.Grows.live (h : s.Grows s' count root) (hs : s.Consistent count root)
    (hd : s.Directory root dir) (hl : s.Live dir n) : s'.Live dir n := by
  have hk := h.kept_of_live hs hd hl
  refine ⟨by rw [h.slots_eq]; exact hl.lt, fun m hm => ?_, ?_, ?_⟩
  · rcases h.kept_or_fresh hs hd (Nat.lt_of_le_of_lt hm hl.lt) with hkm | ⟨rfl, hf⟩
    · rw [hkm 0 (by omega)]
      exact hl.shown m hm
    · exact hf.first
  · rw [hk 0 (by omega)]
    exact hl.kept
  · rw [hk 11 (by omega)]
    exact hl.short

/-- **A slot in use was in use**, unless it was filled.  The zeros behind the end mark exclude the
slots that a new end mark could uncover. -/
theorem FatState.Grows.live_of_kept (h : s.Grows s' count root) (hs : s.Consistent count root)
    (hd : s.Directory root dir) (hl : s'.Live dir n) (hk : s.Kept s' dir n) : s.Live dir n := by
  have hn := h.lt_slots hl
  have hself : s.slotByte dir n 0 ≠ 0 := by
    rw [← hk 0 (by omega)]
    exact hl.shown n (Nat.le_refl n)
  refine ⟨hn, fun m hm => ?_, ?_, ?_⟩
  · rcases h.kept_or_fresh hs hd (Nat.lt_of_le_of_lt hm hn) with hkm | ⟨rfl, hf⟩
    · rw [← hkm 0 (by omega)]
      exact hl.shown m hm
    · exact fun h0 => hself (hs.zeros m n 0 h0 hm hn (by omega))
  · rw [← hk 0 (by omega)]
    exact hl.kept
  · rw [← hk 11 (by omega)]
    exact hl.short

/-! ### The tree of a volume that grows -/

/-- Clusters that are owned stay owned. -/
theorem FatState.Grows.owns (h : s.Grows s' count root) (hk : s.Kept s' dir n)
    (huse : s.InUse count root chain) (ho : s.Owns dir n chain) : s'.Owns dir n chain :=
  ho.congr hk fun c hc => h.entry c (huse c hc).1 (huse c hc).2.1

/-- **An entry that was there owns what it owned.** -/
theorem FatState.Grows.owns_iff (h : s.Grows s' count root) (hs : s.Consistent count root)
    (he : s.Entry root dir n) : s'.Owns dir n chain ↔ s.Owns dir n chain := by
  have hk := h.kept_of_live hs he.directory he.live
  obtain ⟨chain₀, ho, huse⟩ := hs.owned _ _ he
  constructor
  · intro ho'
    rwa [ho'.unique (h.owns hk huse ho)]
  · intro ho'
    rw [ho'.unique ho]
    exact h.owns hk huse ho

/-- A new entry is a file. -/
theorem FatState.Fresh.not_directory (h : s.Fresh s' count root n) :
    ¬ s'.slotByte root n 11 &&& 0x10 ≠ 0 := by
  rw [h.attr]
  decide

/-- **The directories are the same.** -/
theorem FatState.Grows.directory_iff (h : s.Grows s' count root) (hs : s.Consistent count root) :
    s'.Directory root dir ↔ s.Directory root dir := by
  constructor
  · intro hd
    induction hd with
    | root => exact .root
    | @sub dir chain n _ hl hdot hattr ho hd =>
        rcases h.kept_or_fresh hs hd (h.lt_slots hl) with hk | ⟨rfl, hf⟩
        · rw [hk 0 (by omega)] at hdot
          rw [hk 11 (by omega)] at hattr
          have hl₀ := h.live_of_kept hs hd hl hk
          exact .sub hd hl₀ hdot hattr ((h.owns_iff hs ⟨hd, hl₀, hdot⟩).1 ho)
        · exact absurd hattr hf.not_directory
  · intro hd
    induction hd with
    | root => exact .root
    | @sub dir chain n hd hl hdot hattr ho hd' =>
        have hk := h.kept_of_live hs hd hl
        refine .sub hd' (h.live hs hd hl) ?_ ?_ ((h.owns_iff hs ⟨hd, hl, hdot⟩).2 ho)
        · rwa [hk 0 (by omega)]
        · rwa [hk 11 (by omega)]

/-- **The entries that were there are there**. -/
theorem FatState.Grows.entry_of_entry (h : s.Grows s' count root) (hs : s.Consistent count root)
    (he : s.Entry root dir n) : s'.Entry root dir n := by
  have hk := h.kept_of_live hs he.directory he.live
  refine ⟨(h.directory_iff hs).2 he.directory, h.live hs he.directory he.live, ?_⟩
  rw [hk 0 (by omega)]
  exact he.not_dot

/-- **and at most one is new.** -/
theorem FatState.Grows.entry_cases (h : s.Grows s' count root) (hs : s.Consistent count root)
    (he : s'.Entry root dir n) : s.Entry root dir n ∨ dir = root ∧ s.Fresh s' count root n := by
  have hd := (h.directory_iff hs).1 he.directory
  rcases h.kept_or_fresh hs hd (h.lt_slots he.live) with hk | hf
  · have hdot := he.not_dot
    rw [hk 0 (by omega)] at hdot
    exact .inl ⟨hd, h.live_of_kept hs hd he.live hk, hdot⟩
  · exact .inr hf

/-- A new entry owns the cluster that was free, and that one only. -/
theorem FatState.Fresh.owns_iff (h : s.Fresh s' count root n) :
    s'.Owns root n chain ↔ chain = [s'.cluster root n] := by
  have h0 : s'.cluster root n ≠ 0 := by
    have := h.valid.1
    omega
  have hend : Chain s'.next (s'.cluster root n) [s'.cluster root n] := by
    apply Chain.last
    rw [FatState.next, h.taken]
    rfl
  constructor
  · exact fun ho => (ho.linked h0).unique hend
  · rintro rfl
    exact ⟨fun hz => absurd hz h0, fun _ => hend⟩

/-- A free cluster is in no chain that is in use. -/
theorem FatState.Fresh.not_mem (h : s.Fresh s' count root n) (huse : s.InUse count root chain) :
    s'.cluster root n ∉ chain := fun hmem => (huse _ hmem).2.1 h.unused

theorem FatState.Grows.inUse (h : s.Grows s' count root) (huse : s.InUse count root chain) :
    s'.InUse count root chain := by
  intro c hc
  obtain ⟨hv, ht, hroot⟩ := huse c hc
  refine ⟨hv, ?_, hroot⟩
  rwa [h.entry c hv ht]

/-! ### The volume stays in order -/

theorem FatState.Grows.wellFormed (h : s.Grows s' count root) (hw : s.WellFormed count root) :
    s'.WellFormed count root := by
  have hentry : ∀ c ∈ root, s'.entry c = s.entry c := fun c hc =>
    h.entry c (hw.root_valid c hc) (hw.root_taken c hc)
  refine ⟨?_, ?_, hw.root_valid, fun c hc => ?_⟩
  · rw [h.geometry]
    exact hw.layout
  · rw [h.geometry]
    exact hw.rootChain.congr fun c hc => FatState.next_congr (hentry c hc)
  · rw [hentry c hc]
    exact hw.root_taken c hc

/-- Every entry has its clusters. -/
theorem FatState.Grows.owned (h : s.Grows s' count root) (hs : s.Consistent count root)
    (he : s'.Entry root dir n) : ∃ chain, s'.Owns dir n chain ∧ s'.InUse count root chain := by
  rcases h.entry_cases hs he with he₀ | ⟨rfl, hf⟩
  · obtain ⟨chain, ho, huse⟩ := hs.owned _ _ he₀
    exact ⟨chain, (h.owns_iff hs he₀).2 ho, h.inUse huse⟩
  · refine ⟨_, hf.owns_iff.2 rfl, fun c hc => ?_⟩
    obtain rfl := List.mem_singleton.1 hc
    refine ⟨hf.valid, ?_, fun hmem => hs.volume.root_taken _ hmem hf.unused⟩
    rw [hf.taken]
    decide

/-- The new entry shares no cluster with one that was there. -/
theorem FatState.Grows.fresh_apart (h : s.Grows s' count root) (hs : s.Consistent count root)
    {m : ℕ} (hf : s.Fresh s' count root m) (he : s.Entry root dir n) (ho : s'.Owns dir n chain) :
    s'.cluster root m ∉ chain := by
  obtain ⟨chain₀, ho₀, huse⟩ := hs.owned _ _ he
  rw [((h.owns_iff hs he).1 ho).unique ho₀]
  exact hf.not_mem huse

/-- Entries share no cluster. -/
theorem FatState.Grows.apart (h : s.Grows s' count root) (hs : s.Consistent count root)
    {dir' chain' : List ℕ} {n' : ℕ} (he : s'.Entry root dir n) (he' : s'.Entry root dir' n')
    (hne : (dir, n) ≠ (dir', n')) (ho : s'.Owns dir n chain) (ho' : s'.Owns dir' n' chain') :
    ∀ c ∈ chain, c ∉ chain' := by
  intro c hc
  rcases h.entry_cases hs he with he₀ | ⟨rfl, hf⟩ <;>
    rcases h.entry_cases hs he' with he₀' | ⟨rfl, hf'⟩
  · exact hs.apart _ _ _ _ _ _ he₀ he₀' hne ((h.owns_iff hs he₀).1 ho)
      ((h.owns_iff hs he₀').1 ho') c hc
  · rw [hf'.owns_iff.1 ho']
    intro hc'
    obtain rfl := List.mem_singleton.1 hc'
    exact h.fresh_apart hs hf' he₀ ho hc
  · rw [hf.owns_iff.1 ho] at hc
    obtain rfl := List.mem_singleton.1 hc
    exact h.fresh_apart hs hf he₀' ho'
  · have heq := Option.some.inj (hf.free.symm.trans hf'.free)
    exact absurd (by rw [heq]) hne

/-- Behind the end mark there are zeros. -/
theorem FatState.Grows.zeros (h : s.Grows s' count root) (hs : s.Consistent count root) {m k : ℕ}
    (h0 : s'.slotByte root n 0 = 0) (hnm : n ≤ m) (hm : m < s'.slots root) (hk : k < 32) :
    s'.slotByte root m k = 0 := by
  rw [h.slots_eq] at hm
  rcases h.kept_or_fresh hs .root (Nat.lt_of_le_of_lt hnm hm) with hkn | ⟨-, hf⟩
  · rw [hkn 0 (by omega)] at h0
    rcases h.kept_or_fresh hs .root hm with hkm | ⟨-, hf⟩
    · rw [hkm k hk]
      exact hs.zeros n m k h0 hnm hm hk
    · -- the slot that was filled is no later than the first end mark
      obtain ⟨-, -, hbefore⟩ := hf.slot_free hs.volume
      rcases Nat.lt_or_eq_of_le hnm with hlt | rfl
      · exact absurd h0 (hbefore n hlt)
      · exact absurd (hkn 0 (by omega) ▸ h0) hf.first
  · exact absurd h0 hf.first

/-- **The volume stays in order.** -/
theorem FatState.Grows.consistent (h : s.Grows s' count root) (hs : s.Consistent count root) :
    s'.Consistent count root where
  volume := h.wellFormed hs.volume
  enough := hs.enough
  owned _ _ he := h.owned hs he
  apart _ _ _ _ _ _ he he' hne ho ho' := h.apart hs he he' hne ho ho'
  zeros _ _ _ h0 hnm hm hk := h.zeros hs h0 hnm hm hk

/-- **Its entries are left alone.** -/
theorem FatState.Grows.intact (h : s.Grows s' count root) (hs : s.Consistent count root) :
    s.Intact s' root where
  entry _ _ he := h.entry_of_entry hs he
  slot _ _ he := h.kept_of_live hs he.directory he.live
  clusters _ _ _ he ho := (h.owns_iff hs he).2 ho
  bytes dir n chain he ho k hk := by
    obtain ⟨chain₀, ho₀, huse⟩ := hs.owned _ _ he
    rw [ho.unique ho₀] at hk ⊢
    exact h.fileByte_eq hs.volume huse hk

end

/-! ### What a write does -/

section
variable {s : FatState} {count c n : ℕ} {root : List ℕ} {filename : List UInt8} {data : Buf}
  {length : ℕ}

section
variable (hw : s.WellFormed count root) (h0 : s.io 0 = true)
  (hc : freeCluster (s.disk s.fatStartSector).buf = some c) (hv : ValidCluster count c)

include hw hc hv

/-- The FAT sector, the data sector and the root sector are three. -/
theorem sectors_apart :
    s.fatStartSector ≠ s.clusterToSector c ∧ s.fatStartSector ≠ s.rootSector ∧
      s.clusterToSector c ≠ s.rootSector := by
  have hdata := hw.fat_ne hv hv
  have hroot : s.fatStartSector + c / 128 ≠ s.rootSector := hw.fat_ne hw.rootCluster_valid hv
  rw [Nat.div_eq_of_lt (freeCluster_bounds hc).2, Nat.add_zero] at hdata hroot
  exact ⟨hdata, hroot, hw.sector_ne_root hv (hw.not_mem_root hc)⟩

theorem afterData_root : s.afterData c data length s.rootSector = s.disk s.rootSector := by
  obtain ⟨-, hroot, hdata⟩ := sectors_apart hw hc hv
  rw [afterData_of_ne hdata.symm, FatState.afterFat]
  split_ifs
  · exact Function.update_of_ne hroot.symm _ _
  · rfl

include h0

/-- **The root sector after a write.** -/
theorem disk_write_root :
    (fsWriteFileContent filename data length s).disk s.rootSector =
      match (if s.io 3 && s.io 4 then freeSlot (s.disk s.rootSector).buf else none) with
      | some i => toSector (withEntry (s.disk s.rootSector).buf i (formatFatName filename) c length)
      | none => s.disk s.rootSector := by
  have hbefore : s.afterData c data length s.rootSector = s.disk s.rootSector :=
    afterData_root hw hc hv
  rw [disk_write h0 hc, FatState.enteredSlot, FatState.rootBefore, hbefore]
  split_ifs
  · cases freeSlot (s.disk s.rootSector).buf with
    | none => exact hbefore
    | some i => exact Function.update_self _ _ _
  · exact hbefore

omit hw hv in
/-- The other sectors are as the first half of the write leaves them. -/
theorem disk_write_of_ne_root (hn : n ≠ s.rootSector) :
    (fsWriteFileContent filename data length s).disk n = s.afterData c data length n := by
  rw [disk_write h0 hc]
  cases s.enteredSlot c data length with
  | none => rfl
  | some i => exact Function.update_of_ne hn _ _

/-- **The first FAT sector after a write.** -/
theorem disk_write_fat :
    (fsWriteFileContent filename data length s).disk s.fatStartSector =
      if s.io 1 then (s.disk s.fatStartSector).put (4 * c) endOfChain
      else s.disk s.fatStartSector := by
  obtain ⟨hdata, hroot, -⟩ := sectors_apart hw hc hv
  rw [disk_write_of_ne_root h0 hc hroot, afterData_of_ne hdata, FatState.afterFat]
  split_ifs
  · exact Function.update_self _ _ _
  · rfl

/-- **The data sector after a write.** -/
theorem disk_write_data :
    (fsWriteFileContent filename data length s).disk (s.clusterToSector c) =
      if s.io 2 then dataSector data length else s.disk (s.clusterToSector c) := by
  obtain ⟨hdata, -, hroot⟩ := sectors_apart hw hc hv
  rw [disk_write_of_ne_root h0 hc hroot, FatState.afterData]
  split_ifs
  · exact Function.update_self _ _ _
  · rw [FatState.afterFat]
    split_ifs
    · exact Function.update_of_ne hdata.symm _ _
    · rfl

omit hw hv in
/-- **The other sectors stay.** -/
theorem disk_write_other (hfat : n ≠ s.fatStartSector) (hdata : n ≠ s.clusterToSector c)
    (hroot : n ≠ s.rootSector) : (fsWriteFileContent filename data length s).disk n = s.disk n := by
  rw [disk_write_of_ne_root h0 hc hroot, afterData_of_ne hdata, FatState.afterFat]
  split_ifs
  · exact Function.update_of_ne hfat _ _
  · rfl

end

/-- The FAT after a write: one entry is an end mark. -/
theorem entry_write (hw : s.WellFormed count root) (hio : ∀ n, s.io n = true)
    (hc : freeCluster (s.disk s.fatStartSector).buf = some c) (hv : ValidCluster count c) {c' : ℕ}
    (hv' : ValidCluster count c') :
    (fsWriteFileContent filename data length s).entry c' =
      if c' = c then 0x0FFFFFFF else s.entry c' := by
  refine entry_of_put (write_later s).geometry (freeCluster_bounds hc).2
    ((disk_write_fat hw (hio 0) hc hv).trans (if_pos (hio 1))) fun hpos => ?_
  exact disk_write_other (hio 0) hc (by omega) (hw.fat_ne hv hv') (hw.fat_ne hw.rootCluster_valid hv')

/-- The slot that a write fills. -/
theorem fresh_write (hw : s.WellFormed count root) (hio : ∀ n, s.io n = true)
    (hc : freeCluster (s.disk s.fatStartSector).buf = some c) (hv : ValidCluster count c)
    (hslot : freeSlot (s.disk s.rootSector).buf = some n)
    (hdir : ∀ k < 512, (fsWriteFileContent filename data length s).dirSector root n k =
      withEntry (s.disk s.rootSector).buf n (formatFatName filename) c length k)
    (h0 : (0 : UInt8) ∉ filename) :
    s.Fresh (fsWriteFileContent filename data length s) count root n := by
  have hlen := formatFatName_length filename
  have hbounds := freeCluster_bounds hc
  have hn := (freeSlot_eq_some_iff.1 hslot).1
  have hmod : n % 16 = n := Nat.mod_eq_of_lt hn
  have hcluster : (fsWriteFileContent filename data length s).cluster root n = c := by
    rw [FatState.cluster, hmod, slotCluster_congr hdir hn, slotCluster_withEntry_self hlen (by omega)]
  refine ⟨hslot, ?_, ?_, by rwa [hcluster], ?_, ?_⟩
  · rw [FatState.slotByte, hmod, Nat.add_zero, hdir _ (by omega)]
    exact withEntry_first hlen (nul_not_mem_formatFatName h0)
  · rw [FatState.slotByte, hmod, hdir _ (by omega)]
    exact attr_withEntry hlen
  · rw [hcluster]
    exact entry_of_freeCluster hc
  · rw [hcluster, entry_write hw hio hc hv hv, if_pos rfl]

/-- **A write grows the volume**, by nothing if it finds no free cluster. -/
theorem grows_write (hw : s.WellFormed count root) (hcount : 126 ≤ count)
    (hio : ∀ n, s.io n = true) (h0 : (0 : UInt8) ∉ filename) :
    s.Grows (fsWriteFileContent filename data length s) count root := by
  have hlen := formatFatName_length filename
  have hg : (fsWriteFileContent filename data length s).toGeometry = s.toGeometry :=
    (write_later s).geometry
  have hdirSector {n : ℕ} (hn : n < 16) :
      (fsWriteFileContent filename data length s).dirSector root n =
        ((fsWriteFileContent filename data length s).disk s.rootSector).buf := by
    rw [FatState.dirSector, hg, Nat.div_eq_of_lt hn, Geometry.chainSector_zero hw.rootChain]
    rfl
  cases hfree : freeCluster (s.disk s.fatStartSector).buf with
  | none =>
      have hd := @disk_write_of_stuck s filename data length (.inr hfree)
      refine ⟨hg, fun c _ _ => ?_, fun c j _ _ _ _ => by rw [hd], fun n hn => .inl fun k _ => ?_⟩
      · rw [FatState.entry, FatState.entry, hg, hd]
      · rw [FatState.slotByte, FatState.slotByte, hdirSector hn, hd, hw.dirSector_eq hn]
  | some c =>
      have hbounds := freeCluster_bounds hfree
      have hv : ValidCluster count c := ⟨hbounds.1, by omega⟩
      have hother {c' : ℕ} (ht : s.entry c' ≠ 0) : c' ≠ c := by
        rintro rfl
        exact ht (entry_of_freeCluster hfree)
      refine ⟨hg, fun c' hv' ht => ?_, fun c' j hv' ht hj hne => ?_, fun n hn => ?_⟩
      · rw [entry_write hw hio hfree hv hv', if_neg (hother ht)]
      · have hfat := hw.layout.fat_lt (j := j) hv hv'
        refine disk_write_other (hio 0) hfree (by omega) (fun heq => hother ht ?_) hne
        exact (hw.layout.sector_inj hv' hv hj hw.layout.sectorsPerCluster_pos
          (heq.trans (Nat.add_zero _).symm)).1
      · have hroot := @disk_write_root s count c root filename data length hw (hio 0) hfree hv
        simp only [hio, Bool.and_self, if_true] at hroot
        cases hslot : freeSlot (s.disk s.rootSector).buf with
        | none =>
            rw [hslot] at hroot
            refine .inl fun k _ => ?_
            rw [FatState.slotByte, FatState.slotByte, hdirSector hn, hroot, hw.dirSector_eq hn]
        | some i =>
            rw [hslot] at hroot
            have hdir : ∀ k < 512, (fsWriteFileContent filename data length s).dirSector root n k =
                withEntry (s.disk s.rootSector).buf i (formatFatName filename) c length k := by
              intro k hk
              rw [hdirSector hn, hroot]
              exact buf_toSector hk
            rcases eq_or_ne n i with rfl | hne
            · exact .inr (fresh_write hw hio hfree hv hslot hdir h0)
            · refine .inl fun k hk => ?_
              rw [FatState.slotByte, FatState.slotByte, hdir _ (by omega), hw.dirSector_eq hn,
                withEntry_of_ne hlen (by omega) hk, Nat.mod_eq_of_lt hn]

end

/-! ### Runs of writes -/

/-- The arguments of a write: the string `filename`, the memory at `data`, and `length`. -/
structure NewFile where
  filename : List UInt8
  data : Buf
  length : ℕ
  nul_not_mem : (0 : UInt8) ∉ filename

/-- One call of `fs_write_file_content`. -/
def FatState.store (s : FatState) (f : NewFile) : FatState :=
  fsWriteFileContent f.filename f.data f.length s

section
variable {s : FatState} {count : ℕ} {root : List ℕ}

theorem FatState.Intact.refl (s : FatState) (root : List ℕ) : s.Intact s root :=
  ⟨fun _ _ he => he, fun _ _ _ _ _ => rfl, fun _ _ _ _ ho => ho, fun _ _ _ _ _ _ _ => rfl⟩

theorem FatState.Intact.trans {s' s'' : FatState} (h : s.Intact s' root) (h' : s'.Intact s'' root)
    (hg : s'.toGeometry = s.toGeometry) : s.Intact s'' root where
  entry dir n he := h'.entry dir n (h.entry dir n he)
  slot dir n he k hk := (h'.slot dir n (h.entry dir n he) k hk).trans (h.slot dir n he k hk)
  clusters dir n chain he ho :=
    h'.clusters dir n chain (h.entry dir n he) (h.clusters dir n chain he ho)
  bytes dir n chain he ho k hk := by
    have hk' : k < 512 * (s'.sectorsPerCluster * chain.length) := by rwa [hg]
    rw [h'.bytes dir n chain (h.entry dir n he) (h.clusters dir n chain he ho) k hk',
      h.bytes dir n chain he ho k hk]

/-- One write more. -/
theorem grows_store (hs : s.Consistent count root) (hio : ∀ n, s.io n = true) (f : NewFile) :
    s.Grows (s.store f) count root := grows_write hs.volume hs.enough hio f.nul_not_mem

/-- What a run of writes to `s` may leave. -/
structure FatState.Reaches (s t : FatState) (count : ℕ) (root : List ℕ) : Prop where
  consistent : t.Consistent count root
  io : ∀ n, t.io n = true
  intact : s.Intact t root
  geometry : t.toGeometry = s.toGeometry

theorem FatState.Reaches.store (h : s.Reaches s' count root) (f : NewFile) :
    s.Reaches (s'.store f) count root := by
  have hgrows := grows_store h.consistent h.io f
  exact ⟨hgrows.consistent h.consistent, (write_later s').io_true h.io,
    h.intact.trans (hgrows.intact h.consistent) h.geometry, hgrows.geometry.trans h.geometry⟩

/-- A run of writes leaves the volume in order and its entries alone. -/
theorem reaches_run (hs : s.Consistent count root) (hio : ∀ n, s.io n = true)
    (files : List NewFile) : s.Reaches (run FatState.store s files) count root :=
  run_keeps (fun t f (h : s.Reaches t count root) => h.store f) ⟨hs, hio, .refl s root, rfl⟩ files

/-- **New files leave the volume in order and the others alone.**  After every write of a run
the clusters of the root directory and of all entries are allocated and none is in two of them,
the cluster the write takes is none of the root directory's, and each entry that was there has
its name, its size, its clusters and their contents. -/
theorem new_files_apart (hs : s.Consistent count root) (hio : ∀ n, s.io n = true)
    (files : List NewFile) (f : NewFile) :
    ((run FatState.store s files).store f).Consistent count root ∧
      (∀ c, freeCluster ((run FatState.store s files).disk
        (run FatState.store s files).fatStartSector).buf = some c → c ∉ root) ∧
      (run FatState.store s files).Intact ((run FatState.store s files).store f) root ∧
      s.Intact ((run FatState.store s files).store f) root := by
  obtain ⟨ht, htio, hin, hg⟩ := reaches_run hs hio files
  have hgrows := grows_store ht htio f
  exact ⟨hgrows.consistent ht, fun c hc => ht.volume.not_mem_root hc, hgrows.intact ht,
    hin.trans (hgrows.intact ht) hg⟩

/-- Two more files on the volume with one. -/
theorem two_files_apart :
    ((run FatState.store (oneFileVolume [65] [1]) [⟨[66], cString [2], 1, by decide⟩]).store
        ⟨[67], cString [3], 1, by decide⟩).Consistent 126 [2] ∧
      (oneFileVolume [65] [1]).Intact
        ((run FatState.store (oneFileVolume [65] [1]) [⟨[66], cString [2], 1, by decide⟩]).store
          ⟨[67], cString [3], 1, by decide⟩) [2] := by
  have hone : (oneFileVolume [65] [1]).Consistent 126 [2] := oneFileVolume_consistent (by decide)
  obtain ⟨hs, -, -, hin⟩ := new_files_apart hone (fun _ => rfl)
    [⟨[66], cString [2], 1, by decide⟩] ⟨[67], cString [3], 1, by decide⟩
  exact ⟨hs, hin⟩

end

end Fat32
end AiOsExchange
