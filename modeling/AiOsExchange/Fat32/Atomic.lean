/-
# Half a write

`fs_write_file_content` of `modules/fs/fat32.c` stores the FAT sector, the data sector and the root
sector, in this order, and looks at none of the results.

| block request | if it fails |
| --- | --- |
| 0, the FAT sector is read | nothing happens |
| 1, it is written with one more entry | the file gets a cluster that is still free |
| 2, the data sector is written | the file has other data |
| 3, 4, the root sector is read and written | the cluster is used without an entry |

The last also happens where the root sector has no free slot.  Which outcomes leave a file that is
there or a volume as it was is `write_atomic_iff`, on every volume in order.
-/

import AiOsExchange.Fat32.Intact
import AiOsExchange.Fat32.Unique

namespace AiOsExchange
namespace Fat32

open CMemory Chains

/-! ### A file that is there, a volume as it was -/

namespace FatState

/-- Slot `n` of the root directory is a live entry of the name, of the length of the data, and its
cluster is marked in the FAT and holds the data. -/
structure Has (s : FatState) (root : List ℕ) (f : NewFile) (n : ℕ) : Prop where
  live : s.Live root n
  name : slotName (s.dirSector root n) (n % 16) = formatFatName f.filename
  size : slotSize (s.dirSector root n) (n % 16) = f.length
  two_le : 2 ≤ s.cluster root n
  marked : s.entry (s.cluster root n) ≠ 0
  room : f.length ≤ 512 * s.sectorsPerCluster
  data : ∀ k < f.length,
    (s.disk (s.clusterToSector (s.cluster root n) + k / 512)).buf (k % 512) = f.data k

/-- The FAT sectors and those of the root directory are the same in `s'`. -/
structure Unchanged (s s' : FatState) (root : List ℕ) : Prop where
  fat : ∀ n, s.fatStartSector ≤ n → n < s.dataStartSector → s'.disk n = s.disk n
  directory : ∀ q < s.sectorsPerCluster * root.length,
    s'.disk (s.chainSector root q) = s.disk (s.chainSector root q)

/-- **The write happens or leaves the volume as it was.** -/
def WriteAtomic (s : FatState) (root : List ℕ) (f : NewFile) : Prop :=
  (∃ n, (s.store f).Has root f n) ∨ s.Unchanged (s.store f) root

/-! ### What has to be -/

/-- The slot that the write fills. -/
def filled (s : FatState) : Option ℕ := if s.io 3 && s.io 4 then freeSlot s.rootDir else none

/-- After the write cluster `c` holds the data: it has room, its first sector is written or had its
part, and the others had the rest. -/
structure WillHold (s : FatState) (c : ℕ) (f : NewFile) : Prop where
  room : f.length ≤ 512 * s.sectorsPerCluster
  first : s.io 2 = true ∨
    ∀ k < f.length, k < 512 → (s.disk (s.clusterToSector c)).buf k = f.data k
  rest : ∀ k < f.length, 512 ≤ k →
    (s.disk (s.clusterToSector c + k / 512)).buf (k % 512) = f.data k

/-- The outcomes, with cluster `c` free, of a write that is one. -/
def Completes (s : FatState) (c : ℕ) (f : NewFile) : Prop :=
  s.io 1 = true ∧ s.filled.isSome ∧ (formatFatName f.filename).head? ≠ some 0xE5 ∧ s.WillHold c f

/-- The outcomes of a write that is none: the slot that is filled, if any, had these bytes. -/
def Vanishes (s : FatState) (c : ℕ) (f : NewFile) : Prop :=
  s.io 1 = false ∧ ∀ i ∈ s.filled,
    bytesAt s.rootDir (32 * i) 32 = dirEntry (formatFatName f.filename) c f.length

end FatState

section
variable {s : FatState} {count c i n : ℕ} {root : List ℕ} {f : NewFile}

/-! ### The three sectors -/

section
variable (hw : s.WellFormed count root) (h0 : s.io 0 = true)
  (hc : freeCluster (s.disk s.fatStartSector).buf = some c) (hv : ValidCluster count c)

include hw h0 hc hv

/-- The root sector has one entry more, if a slot was filled. -/
theorem store_root :
    (s.store f).disk s.rootSector =
      match s.filled with
      | some i => toSector (withEntry s.rootDir i (formatFatName f.filename) c f.length)
      | none => s.disk s.rootSector := by
  rw [FatState.store, disk_write_root hw h0 hc hv]
  rfl

/-- The first FAT sector has one entry more, if it was written. -/
theorem store_fat :
    (s.store f).disk s.fatStartSector =
      if s.io 1 then (s.disk s.fatStartSector).put (4 * c) endOfChain
      else s.disk s.fatStartSector := disk_write_fat hw h0 hc hv

theorem store_data :
    (s.store f).disk (s.clusterToSector c) =
      if s.io 2 then dataSector f.data f.length else s.disk (s.clusterToSector c) :=
  disk_write_data hw h0 hc hv

omit hw hv in
theorem store_other (hfat : n ≠ s.fatStartSector) (hdata : n ≠ s.clusterToSector c)
    (hroot : n ≠ s.rootSector) : (s.store f).disk n = s.disk n :=
  disk_write_other h0 hc hfat hdata hroot

/-- The bytes of the cluster that is taken. -/
theorem store_data_iff (hroom : f.length ≤ 512 * s.sectorsPerCluster) :
    (∀ k < f.length,
      ((s.store f).disk (s.clusterToSector c + k / 512)).buf (k % 512) = f.data k) ↔
      s.WillHold c f := by
  have hspc := hw.layout.sectorsPerCluster_pos
  have hfirst {k : ℕ} (hk : k < f.length) (hlt : k < 512) :
      ((s.store f).disk (s.clusterToSector c + k / 512)).buf (k % 512) =
        if s.io 2 then f.data k else (s.disk (s.clusterToSector c)).buf k := by
    rw [Nat.div_eq_of_lt hlt, Nat.mod_eq_of_lt hlt, Nat.add_zero, store_data hw h0 hc hv]
    split_ifs
    · rw [dataSector, buf_toSector hlt, dataBlock,
        put_apply_zero (by rw [bytesAt_length]; exact Nat.lt_min.2 ⟨hk, hlt⟩)]
      simp [bytesAt]
    · rfl
  have hrest {k : ℕ} (hk : k < f.length) (hge : 512 ≤ k) :
      (s.store f).disk (s.clusterToSector c + k / 512) = s.disk (s.clusterToSector c + k / 512) := by
    have hj : k / 512 < s.sectorsPerCluster := Nat.div_lt_of_lt_mul (by omega)
    have hfat := hw.layout.fat_lt (j := k / 512) hv hv
    refine store_other h0 hc (by omega) (by omega) fun heq => ?_
    have := (hw.layout.sector_inj hv hw.rootCluster_valid hj hspc (heq.trans (Nat.add_zero _).symm)).1
    exact hw.not_mem_root hc (this ▸ hw.rootChain.mem_start)
  constructor
  · intro h
    refine ⟨hroom, ?_, fun k hk hge => ?_⟩
    · cases h2 : s.io 2 with
      | true => exact .inl rfl
      | false =>
          refine .inr fun k hk hlt => ?_
          have := h k hk
          rwa [hfirst hk hlt, h2, if_neg (by decide)] at this
    · have := h k hk
      rwa [hrest hk hge] at this
  · intro h k hk
    rcases Nat.lt_or_ge k 512 with hlt | hge
    · rw [hfirst hk hlt]
      rcases h.first with h2 | hold
      · rw [h2, if_pos rfl]
      · rw [hold k hk hlt, ite_self]
    · rw [hrest hk hge]
      exact h.rest k hk hge

/-! ### The FAT and the directory -/

/-- Cluster `c` is marked if the FAT sector is written. -/
theorem store_entry {c' : ℕ} (hv' : ValidCluster count c') :
    (s.store f).entry c' = if c' = c ∧ s.io 1 = true then 0x0FFFFFFF else s.entry c' := by
  have hg : (s.store f).toGeometry = s.toGeometry := (write_later s).geometry
  have hlt := (freeCluster_bounds hc).2
  have hother (hpos : 0 < c' / 128) :
      (s.store f).disk (s.fatStartSector + c' / 128) = s.disk (s.fatStartSector + c' / 128) :=
    store_other h0 hc (by omega) (hw.fat_ne hv hv') (hw.fat_ne hw.rootCluster_valid hv')
  have hfat := store_fat (f := f) hw h0 hc hv
  cases h1 : s.io 1 with
  | true =>
      rw [h1, if_pos rfl] at hfat
      rw [entry_of_put hg hlt hfat hother]
      simp
  | false =>
      rw [h1, if_neg (by decide)] at hfat
      rw [FatState.entry, FatState.entry, hg, if_neg (by simp)]
      rcases Nat.eq_zero_or_pos (c' / 128) with hz | hpos
      · rw [hz, Nat.add_zero, hfat]
      · rw [hother hpos]

/-- **The volume is as it was** if the two sectors are. -/
theorem unchanged_iff : s.Unchanged (s.store f) root ↔
    (s.store f).disk s.fatStartSector = s.disk s.fatStartSector ∧
      (s.store f).disk s.rootSector = s.disk s.rootSector := by
  have hlayout := hw.layout
  have hfatle := hlayout.fat_le
  have hspc := hlayout.sectorsPerCluster_pos
  constructor
  · intro h
    have hdir := h.directory 0 (Nat.mul_pos hspc hw.rootChain.length_pos)
    rw [Geometry.chainSector_zero hw.rootChain] at hdir
    exact ⟨h.fat _ (Nat.le_refl _) (by omega), hdir⟩
  · rintro ⟨hfat, hroot⟩
    constructor
    · intro n hn hlt
      have hin {c' : ℕ} (hv' : ValidCluster count c') : n ≠ s.clusterToSector c' := by
        rw [hlayout.clusterToSector_eq hv']
        omega
      rcases eq_or_ne n s.fatStartSector with rfl | hne
      · exact hfat
      · exact store_other h0 hc hne (hin hv) (hin hw.rootCluster_valid)
    · intro q hq
      have hlt : q / s.sectorsPerCluster < root.length :=
        Nat.div_lt_of_lt_mul hq
      have hmem := List.getElem_mem hlt
      have hvr := hw.root_valid _ hmem
      rcases eq_or_ne (s.chainSector root q) s.rootSector with heq | hne
      · rw [heq, hroot]
      · rw [Geometry.chainSector_eq hlt] at hne ⊢
        refine store_other h0 hc ?_ (fun heq => ?_) hne
        · have := hlayout.fat_lt (j := q % s.sectorsPerCluster) hv hvr
          omega
        · have := (hlayout.sector_inj hvr hv (Nat.mod_lt _ hspc) hspc
            (heq.trans (Nat.add_zero _).symm)).1
          exact hw.not_mem_root hc (this ▸ hmem)

/-- The FAT sector is the same if it is not written. -/
theorem store_fat_eq_iff :
    (s.store f).disk s.fatStartSector = s.disk s.fatStartSector ↔ s.io 1 = false := by
  rw [store_fat hw h0 hc hv]
  constructor
  · intro h
    by_contra hio
    rw [if_pos (by simpa using hio)] at h
    have hfree := fatEntry_of_freeCluster hc
    rw [← h, fatEntry_put_endOfChain (freeCluster_bounds hc).2, if_pos rfl] at hfree
    exact absurd hfree (by decide)
  · intro h
    rw [h, if_neg (by decide)]

/-- The root sector is the same if the entry that is filled had the bytes. -/
theorem store_root_eq_iff :
    (s.store f).disk s.rootSector = s.disk s.rootSector ↔
      ∀ i ∈ s.filled,
        bytesAt s.rootDir (32 * i) 32 = dirEntry (formatFatName f.filename) c f.length := by
  rw [store_root hw h0 hc hv]
  cases hfilled : s.filled with
  | none => simp
  | some i =>
      have hi : i < 16 := by
        rw [FatState.filled] at hfilled
        split_ifs at hfilled
        exact (freeSlot_eq_some_iff.1 hfilled).1
      have hlen : (dirEntry (formatFatName f.filename) c f.length).length = 32 :=
        dirEntry_length (formatFatName_length _)
      have hnew : bytesAt (withEntry s.rootDir i (formatFatName f.filename) c f.length) (32 * i) 32 =
          dirEntry (formatFatName f.filename) c f.length := by
        have hself := bytesAt_put_self s.rootDir (32 * i)
          (dirEntry (formatFatName f.filename) c f.length)
        rwa [hlen] at hself
      simp only [Option.mem_def, Option.some.injEq, forall_eq']
      constructor
      · intro h
        have hold := bytesAt_toSector (withEntry s.rootDir i (formatFatName f.filename) c f.length)
          (show 32 * i + 32 ≤ 512 by omega)
        rw [h, hnew] at hold
        exact hold
      · intro h
        rw [withEntry, ← h, put_bytesAt]
        exact toSector_buf _

/-! ### The entries -/

omit hw h0 hc hv in
theorem store_dirSector : (s.store f).dirSector root n =
    ((s.store f).disk (s.chainSector root (n / 16))).buf := by
  rw [FatState.dirSector, show (s.store f).toGeometry = s.toGeometry from (write_later s).geometry]

omit h0 hc hv in
/-- The directory sector with a slot of the first 16. -/
theorem store_dirSector_low (hn : n < 16) :
    (s.store f).dirSector root n = ((s.store f).disk s.rootSector).buf := by
  rw [store_dirSector, Nat.div_eq_of_lt hn, Geometry.chainSector_zero hw.rootChain]
  rfl

omit h0 hv hc in
theorem filled_bounds (hi : s.filled = some i) :
    i < 16 ∧ (s.slotByte root i 0 = 0 ∨ s.slotByte root i 0 = 0xE5) ∧
      ∀ j < i, s.slotByte root j 0 ≠ 0 := by
  rw [FatState.filled] at hi
  split_ifs at hi
  obtain ⟨hlt, hfree, hbefore⟩ := freeSlot_eq_some_iff.1 hi
  have hbyte {j : ℕ} (hj : j < 16) : s.slotByte root j 0 = s.rootDir (32 * j) := by
    rw [FatState.slotByte, hw.dirSector_eq hj, Nat.mod_eq_of_lt hj, Nat.add_zero]
    rfl
  refine ⟨hlt, ?_, fun j hj => ?_⟩
  · rwa [hbyte hlt]
  · rw [hbyte (by omega)]
    exact (hbefore j hj).1

/-- **The slots but the one that is filled stay.** -/
theorem store_kept (hn : n < s.slots root) (hne : ∀ i ∈ s.filled, n ≠ i) :
    s.Kept (s.store f) root n := by
  intro k hk
  rw [FatState.slotByte, FatState.slotByte]
  rcases Nat.lt_or_ge n 16 with hlow | hhigh
  · rw [store_dirSector_low hw hlow, store_root hw h0 hc hv, hw.dirSector_eq hlow]
    cases hfilled : s.filled with
    | none => rfl
    | some i =>
        have hmod : n % 16 = n := Nat.mod_eq_of_lt hlow
        rw [buf_toSector (by omega), hmod,
          withEntry_of_ne (formatFatName_length _) (hne i hfilled) hk]
        rfl
  · -- another sector of the root directory
    have hlt := FatState.cluster_of_slot hw.layout hn
    have hvr := hw.root_valid _ (List.getElem_mem hlt)
    have hspc := hw.layout.sectorsPerCluster_pos
    have hroot : s.chainSector root (n / 16) ≠ s.rootSector := by
      intro heq
      rw [show s.rootSector = s.chainSector root 0 from
        (Geometry.chainSector_zero hw.rootChain).symm] at heq
      have := hw.layout.chainSector_inj hw.root_valid hw.rootChain.nodup hlt
        (by rw [Nat.zero_div]; exact hw.rootChain.length_pos) heq
      omega
    have hfat := hw.layout.fat_lt (j := n / 16 % s.sectorsPerCluster) hv hvr
    rw [store_dirSector, FatState.dirSector]
    rw [Geometry.chainSector_eq hlt] at hroot ⊢
    rw [store_other h0 hc (by omega) (fun heq => ?_) hroot]
    have := (hw.layout.sector_inj hvr hv (Nat.mod_lt _ hspc) hspc (heq.trans (Nat.add_zero _).symm)).1
    exact hw.not_mem_root hc (this ▸ List.getElem_mem hlt)

/-- The slot that is filled. -/
theorem store_filled (hi : s.filled = some i) : ∀ k < 512,
    (s.store f).dirSector root i k =
      withEntry s.rootDir i (formatFatName f.filename) c f.length k := by
  intro k hk
  rw [store_dirSector_low hw (filled_bounds hw hi).1, store_root hw h0 hc hv, hi]
  exact buf_toSector hk

/-- Its first byte is that of the name, and its attribute that of a file. -/
theorem store_filled_bytes (hi : s.filled = some i) :
    some ((s.store f).slotByte root i 0) = (formatFatName f.filename).head? ∧
      (s.store f).slotByte root i 0 ≠ 0 ∧ (s.store f).slotByte root i 11 = 0x20 := by
  have hlt := (filled_bounds hw hi).1
  have hlen := formatFatName_length f.filename
  have hdir := store_filled (f := f) hw h0 hc hv hi
  have hbyte {k : ℕ} (hk : k < 32) : (s.store f).slotByte root i k =
      withEntry s.rootDir i (formatFatName f.filename) c f.length (32 * i + k) := by
    rw [FatState.slotByte, Nat.mod_eq_of_lt hlt, hdir _ (by omega)]
  rw [hbyte (by decide), hbyte (by decide), Nat.add_zero]
  refine ⟨?_, withEntry_first hlen (nul_not_mem_formatFatName f.nul_not_mem), attr_withEntry hlen⟩
  have hname : slotName (withEntry s.rootDir i (formatFatName f.filename) c f.length) i =
      formatFatName f.filename := slotName_withEntry_self hlen
  rw [← head?_slotName, hname]

/-- **It has the name, the cluster and the length.** -/
theorem store_filled_fields (hi : s.filled = some i) :
    slotName ((s.store f).dirSector root i) (i % 16) = formatFatName f.filename ∧
      (s.store f).cluster root i = c ∧
      (f.length < 2 ^ 32 → slotSize ((s.store f).dirSector root i) (i % 16) = f.length) := by
  have hname := formatFatName_length f.filename
  have hlt := (filled_bounds hw hi).1
  have hbound := (freeCluster_bounds hc).2
  have hdir := store_filled (f := f) hw h0 hc hv hi
  rw [FatState.cluster, Nat.mod_eq_of_lt hlt]
  refine ⟨?_, ?_, fun hlen => ?_⟩
  · rw [slotName_congr hdir hlt, slotName_withEntry_self hname]
  · rw [slotCluster_congr hdir hlt, slotCluster_withEntry_self hname (by omega)]
  · rw [slotSize_congr hdir hlt, slotSize_withEntry_self hname hlen]

end

theorem FatState.Kept.name_eq {s' : FatState} (h : s.Kept s' root n) :
    slotName (s'.dirSector root n) (n % 16) = slotName (s.dirSector root n) (n % 16) :=
  bytesAt_congr fun k hk => h k (by omega)

theorem FatState.Kept.size_eq {s' : FatState} (h : s.Kept s' root n) :
    slotSize (s'.dirSector root n) (n % 16) = slotSize (s.dirSector root n) (n % 16) := by
  rw [slotSize, slotSize, u32, u32]
  refine congrArg ofLE (bytesAt_congr fun k hk => ?_)
  rw [Nat.add_assoc]
  exact h (28 + k) (by omega)

section
variable (hs : s.Consistent count root) (h0 : s.io 0 = true)
  (hc : freeCluster (s.disk s.fatStartSector).buf = some c)

include hs hc

theorem free_valid : ValidCluster count c := by
  have hbounds := freeCluster_bounds hc
  have := hs.enough
  exact ⟨hbounds.1, by omega⟩

include h0

/-- **The other entries are live as before.** -/
theorem store_live (hne : ∀ i ∈ s.filled, n ≠ i) : (s.store f).Live root n ↔ s.Live root n := by
  have hv := free_valid hs hc
  have hslots : (s.store f).slots root = s.slots root := by
    rw [FatState.slots, FatState.slots, show (s.store f).toGeometry = s.toGeometry from
      (write_later s).geometry]
  have hkept {m : ℕ} (hm : m < s.slots root) (hne : ∀ i ∈ s.filled, m ≠ i) {k : ℕ} (hk : k < 32) :
      (s.store f).slotByte root m k = s.slotByte root m k :=
    store_kept hs.volume h0 hc hv hm hne k hk
  constructor
  · intro h
    have hn : n < s.slots root := hslots ▸ h.lt
    refine ⟨hn, fun m hm => ?_, ?_, ?_⟩
    · by_cases hmi : ∀ i ∈ s.filled, m ≠ i
      · rw [← hkept (by omega) hmi (by decide)]
        exact h.shown m hm
      · -- an unused slot in front would be the end mark
        intro hzero
        have hbehind := hs.zeros m n 0 hzero hm hn (by decide)
        rw [← hkept hn hne (by decide)] at hbehind
        exact h.shown n (Nat.le_refl n) hbehind
    · rw [← hkept hn hne (by decide)]
      exact h.kept
    · rw [← hkept hn hne (by decide)]
      exact h.short
  · intro h
    have hn := h.lt
    refine ⟨hslots ▸ hn, fun m hm => ?_, ?_, ?_⟩
    · by_cases hmi : ∀ i ∈ s.filled, m ≠ i
      · rw [hkept (by omega) hmi (by decide)]
        exact h.shown m hm
      · simp only [not_forall, not_not] at hmi
        obtain ⟨i, hi, rfl⟩ := hmi
        exact (store_filled_bytes hs.volume h0 hc hv hi).2.1
    · rw [hkept hn hne (by decide)]
      exact h.kept
    · rw [hkept hn hne (by decide)]
      exact h.short

/-- The cluster of an entry is not the one that is taken, and its sectors stay. -/
theorem store_own (hl : s.Live root n) (htwo : 2 ≤ s.cluster root n) :
    s.entry (s.cluster root n) ≠ 0 ∧
      (s.store f).entry (s.cluster root n) = s.entry (s.cluster root n) ∧
      ∀ j < s.sectorsPerCluster,
        (s.store f).disk (s.clusterToSector (s.cluster root n) + j) =
          s.disk (s.clusterToSector (s.cluster root n) + j) := by
  have hw := hs.volume
  have hv := free_valid hs hc
  have hspc := hw.layout.sectorsPerCluster_pos
  obtain ⟨chain, howns, huse⟩ := hs.owned root n ⟨.root, hl, fun h => absurd rfl h⟩
  obtain ⟨hvn, htaken, hroot⟩ := huse _ (howns.linked (by omega)).mem_start
  have hother : s.cluster root n ≠ c := by
    intro heq
    exact htaken (heq ▸ entry_of_freeCluster hc)
  refine ⟨htaken, ?_, fun j hj => ?_⟩
  · rw [store_entry hw h0 hc hv hvn, if_neg fun h => hother h.1]
  · have hfat := hw.layout.fat_lt (j := j) hv hvn
    refine store_other h0 hc (by omega) (fun heq => hother ?_) fun heq => hroot ?_
    · exact (hw.layout.sector_inj hvn hv hj hspc (heq.trans (Nat.add_zero _).symm)).1
    · have := (hw.layout.sector_inj hvn hw.rootCluster_valid hj hspc
        (heq.trans (Nat.add_zero _).symm)).1
      exact this ▸ hw.rootChain.mem_start

/-- **They have the data as before.** -/
theorem store_has (hne : ∀ i ∈ s.filled, n ≠ i) : (s.store f).Has root f n ↔ s.Has root f n := by
  have hg : (s.store f).toGeometry = s.toGeometry := (write_later s).geometry
  have hlive := store_live (f := f) hs h0 hc hne
  by_cases hl : s.Live root n
  · have hkept := store_kept (f := f) hs.volume h0 hc (free_valid hs hc) hl.lt hne
    have hcluster := hkept.cluster_eq
    by_cases htwo : 2 ≤ s.cluster root n
    · obtain ⟨htaken, hentry, hsector⟩ := store_own (f := f) hs h0 hc hl htwo
      have hdata (hroom : f.length ≤ 512 * s.sectorsPerCluster) {k : ℕ} (hk : k < f.length) :=
        hsector (k / 512) (Nat.div_lt_of_lt_mul (by omega))
      constructor
      · intro h
        have hroom := h.room
        rw [hg] at hroom
        refine ⟨hl, hkept.name_eq.symm.trans h.name, hkept.size_eq.symm.trans h.size, htwo, htaken,
          hroom, fun k hk => ?_⟩
        have hbyte := h.data k hk
        rw [hcluster, hg, hdata hroom hk] at hbyte
        exact hbyte
      · intro h
        refine ⟨hlive.2 hl, hkept.name_eq.trans h.name, hkept.size_eq.trans h.size, ?_, ?_, ?_,
          fun k hk => ?_⟩
        · rw [hcluster]
          exact htwo
        · rw [hcluster, hentry]
          exact htaken
        · rw [hg]
          exact h.room
        · rw [hcluster, hg, hdata h.room hk]
          exact h.data k hk
    · refine iff_of_false (fun h => htwo ?_) fun h => htwo h.two_le
      rw [← hcluster]
      exact h.two_le
  · exact iff_of_false (fun h => hl (hlive.1 h.live)) fun h => hl h.live

/-- **The new entry has the data** if the write completes. -/
theorem store_has_filled (hlen : f.length < 2 ^ 32) (hi : s.filled = some i) :
    (s.store f).Has root f i ↔ s.Completes c f := by
  have hw := hs.volume
  have hv := free_valid hs hc
  have hg : (s.store f).toGeometry = s.toGeometry := (write_later s).geometry
  obtain ⟨hlt, -, hbefore⟩ := filled_bounds hw hi
  obtain ⟨hhead, hnonzero, hattr⟩ := store_filled_bytes (f := f) hw h0 hc hv hi
  obtain ⟨hname, hcluster, hsize⟩ := store_filled_fields (f := f) hw h0 hc hv hi
  have hmarked : (s.store f).entry c ≠ 0 ↔ s.io 1 = true := by
    rw [store_entry hw h0 hc hv hv]
    split_ifs with h1
    · exact iff_of_true (by decide) h1.2
    · exact iff_of_false (not_not.2 (entry_of_freeCluster hc)) fun h => h1 ⟨rfl, h⟩
  have hin : i < (s.store f).slots root := by
    rw [FatState.slots, hg]
    have := Nat.mul_pos hw.layout.sectorsPerCluster_pos hw.rootChain.length_pos
    omega
  have hlive : (s.store f).Live root i ↔ (formatFatName f.filename).head? ≠ some 0xE5 := by
    rw [← hhead]
    constructor
    · intro h heq
      exact h.kept (Option.some.inj heq)
    · intro h
      refine ⟨hin, fun m hm => ?_, fun heq => h (congrArg some heq), ?_⟩
      · rcases Nat.lt_or_eq_of_le hm with hlt' | rfl
        · have hm' : m < s.slots root := by
            rw [FatState.slots, hg] at hin
            exact Nat.lt_trans hlt' hin
          have hkept := store_kept (f := f) hw h0 hc hv hm' (fun j hj => by
            obtain rfl := Option.some.inj (hi.symm.trans hj)
            omega) 0 (by decide)
          rw [hkept]
          exact hbefore m hlt'
        · exact hnonzero
      · rw [hattr]
        decide
  constructor
  · intro h
    have hroom := h.room
    have hdata := h.data
    rw [hg] at hroom
    rw [hcluster, hg] at hdata
    refine ⟨hmarked.1 ?_, by rw [hi]; rfl, hlive.1 h.live, (store_data_iff hw h0 hc hv hroom).1 hdata⟩
    have := h.marked
    rwa [hcluster] at this
  · rintro ⟨h1, -, hfirst, hhold⟩
    refine ⟨hlive.2 hfirst, hname, hsize hlen, ?_, ?_, ?_, ?_⟩
    · rw [hcluster]
      exact (freeCluster_bounds hc).1
    · rw [hcluster]
      exact hmarked.2 h1
    · rw [hg]
      exact hhold.room
    · rw [hcluster, hg]
      exact (store_data_iff hw h0 hc hv hhold.room).2 hhold

/-- **A write with a free cluster** is one or none in these cases. -/
theorem write_atomic_of_free (hlen : f.length < 2 ^ 32) :
    s.WriteAtomic root f ↔ s.Completes c f ∨ s.Vanishes c f ∨ ∃ n, s.Has root f n := by
  have hw := hs.volume
  have hv := free_valid hs hc
  have hunchanged : s.Unchanged (s.store f) root ↔ s.Vanishes c f := by
    rw [unchanged_iff hw h0 hc hv, store_fat_eq_iff hw h0 hc hv, store_root_eq_iff hw h0 hc hv,
      FatState.Vanishes]
  have hnot {n : ℕ} (h : s.Has root f n) : ∀ i ∈ s.filled, n ≠ i := by
    rintro i hi rfl
    rcases (filled_bounds hw hi).2.1 with hzero | hdeleted
    · exact h.live.shown n (Nat.le_refl n) hzero
    · exact h.live.kept hdeleted
  rw [FatState.WriteAtomic, hunchanged]
  constructor
  · rintro (⟨n, hn⟩ | hvanish)
    · by_cases hne : ∀ i ∈ s.filled, n ≠ i
      · exact .inr (.inr ⟨n, (store_has hs h0 hc hne).1 hn⟩)
      · simp only [not_forall, not_not] at hne
        obtain ⟨i, hi, rfl⟩ := hne
        exact .inl ((store_has_filled hs h0 hc hlen hi).1 hn)
    · exact .inr (.inl hvanish)
  · rintro (hcomplete | hvanish | ⟨n, hn⟩)
    · obtain ⟨i, hi⟩ := Option.isSome_iff_exists.1 hcomplete.2.1
      exact .inl ⟨i, (store_has_filled hs h0 hc hlen hi).2 hcomplete⟩
    · exact .inr hvanish
    · exact .inl ⟨n, (store_has hs h0 hc (hnot hn)).2 hn⟩

end

/-! ### When a write is one or none -/

/-- **When a write happens or leaves the volume as it was**: the FAT sector is not read or has no
free entry; or the FAT sector and the entry are written, and the cluster has room for the data and
holds it; or neither is written (or had these bytes); or an older entry of the name has the data. -/
theorem write_atomic_iff (hs : s.Consistent count root) (hlen : f.length < 2 ^ 32) :
    s.WriteAtomic root f ↔
      s.io 0 = false ∨ freeCluster (s.disk s.fatStartSector).buf = none ∨
        (∃ n, s.Has root f n) ∨
        ∃ c ∈ freeCluster (s.disk s.fatStartSector).buf, s.Completes c f ∨ s.Vanishes c f := by
  by_cases hstuck : s.io 0 = false ∨ freeCluster (s.disk s.fatStartSector).buf = none
  · have hdisk : (s.store f).disk = s.disk := disk_write_of_stuck hstuck
    have hsame : s.Unchanged (s.store f) root := ⟨fun n _ _ => by rw [hdisk], fun q _ => by rw [hdisk]⟩
    refine iff_of_true (.inr hsame) ?_
    rcases hstuck with h | h
    · exact .inl h
    · exact .inr (.inl h)
  · obtain ⟨h0, hfree⟩ := not_or.1 hstuck
    have hio : s.io 0 = true := by simpa using h0
    obtain ⟨c, hc⟩ := Option.ne_none_iff_exists'.1 hfree
    rw [write_atomic_of_free hs hio hc hlen]
    constructor
    · rintro (hcomplete | hvanish | hhas)
      · exact .inr (.inr (.inr ⟨c, hc, .inl hcomplete⟩))
      · exact .inr (.inr (.inr ⟨c, hc, .inr hvanish⟩))
      · exact .inr (.inr (.inl hhas))
    · rintro (h | h | hhas | ⟨c', hc', hcomplete | hvanish⟩)
      · exact absurd h h0
      · exact absurd h hfree
      · exact .inr (.inr hhas)
      · obtain rfl := Option.some.inj (hc.symm.trans hc')
        exact .inl hcomplete
      · obtain rfl := Option.some.inj (hc.symm.trans hc')
        exact .inr (.inl hvanish)

end

/-- A second file is written. -/
theorem second_file_written :
    (oneFileVolume [65] [1]).WriteAtomic [2] ⟨[66], cString [2], 1, by decide⟩ := by
  refine (write_atomic_iff (oneFileVolume_consistent (by decide)) (by decide)).2
    (.inr (.inr (.inr ⟨4, by decide, .inl ⟨rfl, by decide, by decide, by decide, .inl rfl, ?_⟩⟩)))
  intro k hk hge
  have hk : k < 1 := hk
  omega

/-! ### A directory sector without a free slot -/

/-- 16 empty files, `A` to `P`. -/
def fullDir : Buf := fun k =>
  if k % 32 = 0 then UInt8.ofNat (65 + k / 32)
  else if k % 32 < 11 then 32
  else if k % 32 = 11 then 0x20
  else 0

/-- A volume with these files. -/
def fullVolume : FatState :=
  { oneFileVolume [65] [] with
    disk := fun n => if n = 2 then toSector fullDir else (oneFileVolume [65] []).disk n }

theorem fullVolume_wellFormed : fullVolume.WellFormed 126 [2] where
  layout := (@oneFileVolume_wellFormed [65] []).layout
  rootChain := .last (by decide)
  root_valid := by simp [ValidCluster]
  root_taken := by
    intro c hc
    obtain rfl := List.mem_singleton.1 hc
    decide

theorem fullVolume_slots : fullVolume.slots [2] = 16 := by decide

theorem fullVolume_slot {n : ℕ} (hn : n < 16) :
    fullVolume.slotByte [2] n 0 ≠ 0 ∧ fullVolume.slotByte [2] n 11 = 0x20 ∧
      fullVolume.cluster [2] n = 0 := by
  revert n
  decide

/-- The only directory is the root directory, and its files have no clusters. -/
theorem fullVolume_entry {dir : List ℕ} {n : ℕ} (he : fullVolume.Entry [2] dir n) :
    dir = [2] ∧ n < 16 := by
  have hdir (dir : List ℕ) (hd : fullVolume.Directory [2] dir) : dir = [2] := by
    induction hd with
    | root => rfl
    | sub hd hl hdot hattr ho ih =>
        subst ih
        have hlt := hl.lt
        rw [fullVolume_slots] at hlt
        rw [(fullVolume_slot hlt).2.1] at hattr
        exact absurd (by decide) hattr
  obtain rfl := hdir dir he.directory
  have hlt := he.live.lt
  rw [fullVolume_slots] at hlt
  exact ⟨rfl, hlt⟩

theorem fullVolume_consistent : fullVolume.Consistent 126 [2] where
  volume := fullVolume_wellFormed
  enough := Nat.le_refl _
  owned dir n he := by
    obtain ⟨rfl, hlt⟩ := fullVolume_entry he
    exact ⟨[], ⟨fun _ => rfl, fun h => absurd (fullVolume_slot hlt).2.2 h⟩,
      fun c hc => absurd hc List.not_mem_nil⟩
  apart dir n dir' n' chain chain' he _ _ ho _ c hc := by
    obtain ⟨rfl, hlt⟩ := fullVolume_entry he
    rw [ho.empty (fullVolume_slot hlt).2.2] at hc
    exact absurd hc List.not_mem_nil
  zeros n m k hzero hnm hm _ := by
    rw [fullVolume_slots] at hm
    exact absurd hzero (fullVolume_slot (by omega)).1

/-- A write of another file takes cluster 4, and no entry has it. -/
theorem cluster_without_entry :
    fullVolume.Consistent 126 [2] ∧ fullVolume.entry 4 = 0 ∧
      (fullVolume.store ⟨[81], cString [1], 1, by decide⟩).entry 4 = 0x0FFFFFFF ∧
      (fullVolume.store ⟨[81], cString [1], 1, by decide⟩).rootDir 0 = 65 ∧
      ¬ fullVolume.WriteAtomic [2] ⟨[81], cString [1], 1, by decide⟩ := by
  refine ⟨fullVolume_consistent, by decide, by decide, by decide, fun h => ?_⟩
  have hfree : freeCluster (fullVolume.disk fullVolume.fatStartSector).buf = some 4 := by decide
  rcases (write_atomic_of_free fullVolume_consistent rfl hfree (by decide)).1 h with
    hcomplete | hvanish | ⟨n, hn⟩
  · exact absurd hcomplete.2.1 (by decide)
  · exact absurd hvanish.1 (by decide)
  · have hlt := hn.live.lt
    rw [fullVolume_slots] at hlt
    have hname : ∀ n < 16, slotName (fullVolume.dirSector [2] n) (n % 16) ≠ formatFatName [81] := by
      decide
    exact hname n hlt hn.name

end Fat32
end AiOsExchange
