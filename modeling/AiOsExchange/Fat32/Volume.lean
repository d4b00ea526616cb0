/-
# Files as a volume stores them

What FAT32 means by a file, apart from how `modules/fs/fat32.c` gets at it.  A volume is a FAT
and clusters of `sectorsPerCluster` sectors of 512 bytes; a chain of clusters is a sequence of
sectors (`chainSector`); a directory is a chain of slots, 16 a sector, and a file the bytes of
its chain, cut at the size in its slot (`fileBytes`).

| here | the code |
| --- | --- |
| `next` reads the FAT sector of a cluster | reads the first |
| `Stores` finds a name in any sector of the root directory | looks in the first |
| `fileBytes` go through the whole chain | a read sees the first sector |

`Stores` is a specification; what the operations do to a file that is stored is proved of the
code elsewhere.
-/

import AiOsExchange.Fat32.Outcomes
import AiOsExchange.Lib.Chain

namespace AiOsExchange
namespace Fat32

open CMemory Chains

/-! ### Layout -/

/-- The sectors of a cluster. -/
def Geometry.sectorsPerCluster (g : Geometry) : ℕ := g.bytesPerCluster / 512

/-- The numbers of the clusters of a volume that has `count` of them. -/
def ValidCluster (count c : ℕ) : Prop := 2 ≤ c ∧ c < count + 2

/-- The layout of a volume with `count` clusters: the FAT, then the clusters, all within 2³²
sectors.  The sectors per cluster are a byte of the boot sector. -/
structure Geometry.WellFormed (g : Geometry) (count : ℕ) : Prop where
  bytesPerCluster : g.bytesPerCluster = 512 * g.sectorsPerCluster
  sectorsPerCluster_pos : 0 < g.sectorsPerCluster
  sectorsPerCluster_lt : g.sectorsPerCluster < 256
  count_le : count ≤ g.maxValidClusters
  maxValidClusters_lt : g.maxValidClusters < 2 ^ 32
  fat_le : g.fatStartSector + (count + 2 + 127) / 128 ≤ g.dataStartSector
  clusters_le : g.dataStartSector + count * g.sectorsPerCluster ≤ 2 ^ 32

/-- Sector `q` of a chain of clusters. -/
def Geometry.chainSector (g : Geometry) (chain : List ℕ) (q : ℕ) : ℕ :=
  g.clusterToSector (chain.getD (q / g.sectorsPerCluster) 0) + q % g.sectorsPerCluster

namespace FatState

/-- The FAT entry of a cluster. -/
def entry (s : FatState) (c : ℕ) : ℕ :=
  fatEntry (s.disk (s.fatStartSector + c / 128)).buf (c % 128)

/-- The successor of a cluster in the FAT. -/
def next (s : FatState) (c : ℕ) : Option ℕ :=
  if 2 ≤ s.entry c ∧ s.entry c < 0x0FFFFFF8 then some (s.entry c) else none

/-- Byte `k` of a chain of clusters. -/
def fileByte (s : FatState) (chain : List ℕ) (k : ℕ) : UInt8 :=
  (s.disk (s.chainSector chain (k / 512))).buf (k % 512)

/-- The bytes of a file with this chain and size. -/
def fileBytes (s : FatState) (chain : List ℕ) (size : ℕ) : List UInt8 :=
  (List.range size).map (s.fileByte chain)

/-- The directory sector with slot `n`, which is slot `n % 16` there. -/
def dirSector (s : FatState) (root : List ℕ) (n : ℕ) : Buf :=
  (s.disk (s.chainSector root (n / 16))).buf

/-- A volume with `count` clusters and this root directory. -/
structure WellFormed (s : FatState) (count : ℕ) (root : List ℕ) : Prop where
  layout : s.toGeometry.WellFormed count
  rootChain : Chain s.next s.rootDirCluster root
  root_valid : ∀ c ∈ root, ValidCluster count c
  root_taken : ∀ c ∈ root, s.entry c ≠ 0

/-- The file `filename` is the one in slot `slot` of the root directory, with the clusters
`chain`.  An empty file may have no cluster. -/
structure Stores (s : FatState) (count : ℕ) (root : List ℕ) (filename : List UInt8) (slot : ℕ)
    (chain : List ℕ) : Prop where
  slot_lt : slot < 16 * (s.sectorsPerCluster * root.length)
  used : ∀ n ≤ slot, s.dirSector root n (32 * (n % 16)) ≠ 0
  name : slotName (s.dirSector root slot) (slot % 16) = formatFatName filename
  first : ∀ n < slot, slotName (s.dirSector root n) (n % 16) ≠ formatFatName filename
  fileChain : Chain s.next (slotCluster (s.dirSector root slot) (slot % 16)) chain ∨
    slotCluster (s.dirSector root slot) (slot % 16) = 0 ∧ chain = []
  valid : ∀ c ∈ chain, ValidCluster count c
  taken : ∀ c ∈ chain, s.entry c ≠ 0
  apart : ∀ c ∈ chain, c ∉ root
  size_le : slotSize (s.dirSector root slot) (slot % 16) ≤
    512 * (s.sectorsPerCluster * chain.length)

/-- The content of a file that is stored. -/
def content (s : FatState) (root : List ℕ) (slot : ℕ) (chain : List ℕ) : List UInt8 :=
  s.fileBytes chain (slotSize (s.dirSector root slot) (slot % 16))

end FatState

/-! ### Sectors -/

section
variable {g : Geometry} {count c : ℕ} {chain : List ℕ}

/-- On a volume the arithmetic of `cluster_to_sector` does not wrap. -/
theorem Geometry.WellFormed.clusterToSector_eq (h : g.WellFormed count) (hc : ValidCluster count c) :
    g.clusterToSector c = g.dataStartSector + (c - 2) * g.sectorsPerCluster := by
  obtain ⟨hc2, hcn⟩ := hc
  have hcount : count < 2 ^ 32 := Nat.lt_of_le_of_lt h.count_le h.maxValidClusters_lt
  have hoff : (c + (2 ^ 32 - 2)) % 2 ^ 32 = c - 2 := by omega
  have hmul : (c - 2 + 1) * g.sectorsPerCluster ≤ count * g.sectorsPerCluster :=
    Nat.mul_le_mul_right _ (by omega)
  have hpos := h.sectorsPerCluster_pos
  have hle := h.clusters_le
  rw [Nat.add_mul, Nat.one_mul] at hmul
  simp only [Geometry.clusterToSector]
  rw [hoff]
  exact Nat.mod_eq_of_lt (by simp only [Geometry.sectorsPerCluster] at *; omega)

/-- **Clusters do not share sectors.** -/
theorem Geometry.WellFormed.sector_inj (h : g.WellFormed count) {c c' j j' : ℕ}
    (hc : ValidCluster count c) (hc' : ValidCluster count c') (hj : j < g.sectorsPerCluster)
    (hj' : j' < g.sectorsPerCluster)
    (heq : g.clusterToSector c + j = g.clusterToSector c' + j') : c = c' ∧ j = j' := by
  rw [h.clusterToSector_eq hc, h.clusterToSector_eq hc'] at heq
  have hdiv (d i : ℕ) (hi : i < g.sectorsPerCluster) :
      (d * g.sectorsPerCluster + i) / g.sectorsPerCluster = d := by
    rw [Nat.add_comm, Nat.add_mul_div_right _ _ h.sectorsPerCluster_pos, Nat.div_eq_of_lt hi,
      Nat.zero_add]
  have hsame : (c - 2) * g.sectorsPerCluster + j = (c' - 2) * g.sectorsPerCluster + j' := by omega
  have hcc : c - 2 = c' - 2 := by rw [← hdiv (c - 2) j hj, hsame, hdiv _ _ hj']
  obtain ⟨hc2, -⟩ := hc
  obtain ⟨hc2', -⟩ := hc'
  obtain rfl : c = c' := by omega
  exact ⟨rfl, by omega⟩

/-- The FAT is in front of all clusters. -/
theorem Geometry.WellFormed.fat_lt (h : g.WellFormed count) {c c' j : ℕ} (hc : ValidCluster count c)
    (hc' : ValidCluster count c') : g.fatStartSector + c / 128 < g.clusterToSector c' + j := by
  rw [h.clusterToSector_eq hc']
  have := h.fat_le
  obtain ⟨-, hcn⟩ := hc
  omega

/-- Sector `q` of a chain is one of its clusters'. -/
theorem Geometry.chainSector_eq {q : ℕ} (h : q / g.sectorsPerCluster < chain.length) :
    g.chainSector chain q =
      g.clusterToSector chain[q / g.sectorsPerCluster] + q % g.sectorsPerCluster := by
  rw [Geometry.chainSector, List.getD_eq_getElem?_getD, List.getElem?_eq_getElem h, Option.getD_some]

theorem Geometry.chainSector_zero {next : ℕ → Option ℕ} (h : Chain next c chain) :
    g.chainSector chain 0 = g.clusterToSector c := by
  rw [Geometry.chainSector, Nat.zero_div, Nat.zero_mod, Nat.add_zero, List.getD_eq_getElem?_getD,
    h.getElem?_zero, Option.getD_some]

/-- **A chain has no sector twice.** -/
theorem Geometry.WellFormed.chainSector_inj (h : g.WellFormed count)
    (hvalid : ∀ c ∈ chain, ValidCluster count c) (hnodup : chain.Nodup) {q q' : ℕ}
    (hq : q / g.sectorsPerCluster < chain.length) (hq' : q' / g.sectorsPerCluster < chain.length)
    (heq : g.chainSector chain q = g.chainSector chain q') : q = q' := by
  rw [Geometry.chainSector_eq hq, Geometry.chainSector_eq hq'] at heq
  obtain ⟨hc, hj⟩ := h.sector_inj (hvalid _ (List.getElem_mem hq)) (hvalid _ (List.getElem_mem hq'))
    (Nat.mod_lt _ h.sectorsPerCluster_pos) (Nat.mod_lt _ h.sectorsPerCluster_pos) heq
  have hdiv := (hnodup.getElem_inj_iff).1 hc
  rw [← Nat.div_add_mod q g.sectorsPerCluster, ← Nat.div_add_mod q' g.sectorsPerCluster, hdiv, hj]

end

/-! ### What the operations see of a file -/

section
variable {s : FatState} {count slot c : ℕ} {root chain : List ℕ} {filename : List UInt8}

/-- The code's root sector is the first of the root directory. -/
theorem FatState.dirSector_of_chain {next : ℕ → Option ℕ} (h : Chain next s.rootDirCluster root)
    {n : ℕ} (hn : n < 16) : s.dirSector root n = (s.disk s.rootSector).buf := by
  rw [FatState.dirSector, Nat.div_eq_of_lt hn, Geometry.chainSector_zero h]
  rfl

theorem FatState.WellFormed.dirSector_eq (h : s.WellFormed count root) {n : ℕ} (hn : n < 16) :
    s.dirSector root n = (s.disk s.rootSector).buf := FatState.dirSector_of_chain h.rootChain hn

/-- **A read finds a file of the first directory sector.** -/
theorem FatState.Stores.readSlot_eq (hs : s.Stores count root filename slot chain)
    (h : s.WellFormed count root) (hslot : slot < 16) :
    readSlot (s.disk s.rootSector).buf (formatFatName filename) = some slot := by
  have hused := hs.used
  have hname := hs.name
  have hfirst := hs.first
  rw [h.dirSector_eq hslot, Nat.mod_eq_of_lt hslot] at hname
  refine readSlot_eq_some_iff.2 ⟨hslot, ?_, hname, fun j hj => ⟨?_, ?_⟩⟩
  · have := hused slot (Nat.le_refl _)
    rwa [h.dirSector_eq hslot, Nat.mod_eq_of_lt hslot] at this
  · have := hused j (Nat.le_of_lt hj)
    rwa [h.dirSector_eq (by omega), Nat.mod_eq_of_lt (by omega)] at this
  · have := hfirst j hj
    rwa [h.dirSector_eq (by omega), Nat.mod_eq_of_lt (by omega)] at this

/-- **A read misses the files of the other directory sectors.** -/
theorem FatState.Stores.readSlot_eq_none (hs : s.Stores count root filename slot chain)
    (h : s.WellFormed count root) (hslot : 16 ≤ slot) :
    readSlot (s.disk s.rootSector).buf (formatFatName filename) = none := by
  rw [Option.eq_none_iff_forall_ne_some]
  intro i hi
  obtain ⟨hlt, -, hname, -⟩ := readSlot_eq_some_iff.1 hi
  have := hs.first i (by omega)
  rw [h.dirSector_eq hlt, Nat.mod_eq_of_lt hlt] at this
  exact this hname

/-- An append finds it too. -/
theorem FatState.Stores.appendSlot_eq (hs : s.Stores count root filename slot chain)
    (h : s.WellFormed count root) (hslot : slot < 16) :
    appendSlot (s.disk s.rootSector).buf (formatFatName filename) = some slot := by
  obtain ⟨hlt, -, hname, hbefore⟩ := readSlot_eq_some_iff.1 (hs.readSlot_eq h hslot)
  rw [appendSlot, List.find?_range_eq_some]
  exact ⟨by simpa using hname, List.mem_range.2 hlt, fun j hj => by simpa using (hbefore j hj).2⟩

/-- What a read takes from the directory. -/
theorem FatState.Stores.lookup_eq (hs : s.Stores count root filename slot chain)
    (h : s.WellFormed count root) (hslot : slot < 16) :
    s.lookup filename =
      (slotCluster (s.dirSector root slot) (slot % 16),
        slotSize (s.dirSector root slot) (slot % 16)) := by
  rw [FatState.lookup, readTarget, hs.readSlot_eq h hslot, h.dirSector_eq hslot,
    Nat.mod_eq_of_lt hslot]

theorem FatState.Stores.lookup_eq_zero (hs : s.Stores count root filename slot chain)
    (h : s.WellFormed count root) (hslot : 16 ≤ slot) : s.lookup filename = (0, 0) := by
  rw [FatState.lookup, readTarget, hs.readSlot_eq_none h hslot]

/-- A file without a cluster is empty. -/
theorem FatState.Stores.content_nil (hs : s.Stores count root filename slot chain)
    (hnil : chain = []) : s.content root slot chain = [] := by
  have := hs.size_le
  rw [hnil, List.length_nil] at this
  rw [FatState.content, FatState.fileBytes, Nat.le_zero.1 this]
  rfl

/-- A file with clusters has them in its slot. -/
theorem FatState.Stores.chain_of_ne_nil (hs : s.Stores count root filename slot chain)
    (hne : chain ≠ []) :
    Chain s.next (slotCluster (s.dirSector root slot) (slot % 16)) chain :=
  hs.fileChain.resolve_right fun h => hne h.2

/-- A file has no more clusters than the volume. -/
theorem FatState.Stores.length_le (hs : s.Stores count root filename slot chain) :
    chain.length ≤ count := by
  rcases hs.fileChain with hchain | ⟨-, rfl⟩
  · have hsub : chain ⊆ List.range' 2 count := fun c hc => by
      have := hs.valid c hc
      unfold ValidCluster at this
      exact List.mem_range'.2 ⟨c - 2, by omega, by omega⟩
    simpa using hchain.length_le hsub
  · exact Nat.zero_le _

theorem FatState.Stores.cluster_ne_zero (hs : s.Stores count root filename slot chain)
    (hne : chain ≠ []) : slotCluster (s.dirSector root slot) (slot % 16) ≠ 0 := by
  have := (hs.valid _ (hs.chain_of_ne_nil hne).mem_start).1
  omega

@[simp] theorem FatState.content_length (s : FatState) (root : List ℕ) (slot : ℕ) (chain : List ℕ) :
    (s.content root slot chain).length = slotSize (s.dirSector root slot) (slot % 16) := by
  simp [FatState.content, FatState.fileBytes]

/-- **The first 512 bytes of a file are those of its cluster's first sector.** -/
theorem FatState.fileBytes_take (h : Chain s.next c chain) {size m : ℕ} (hm : m ≤ 512) :
    (s.fileBytes chain size).take m =
      bytesAt (s.disk (s.clusterToSector c)).buf 0 (min size m) := by
  rw [FatState.fileBytes, ← List.map_take, List.take_range, bytesAt, Nat.min_comm]
  apply List.map_congr_left
  intro k hk
  have hk512 : k < 512 := by
    have := List.mem_range.1 hk
    omega
  rw [FatState.fileByte, Nat.div_eq_of_lt hk512, Nat.mod_eq_of_lt hk512,
    Geometry.chainSector_zero h, Nat.zero_add]

end

/-! ### A volume with one file -/

/-- 126 clusters of one sector: the FAT in sector 1, cluster `c` in sector `c`, the root directory
in cluster 2. -/
def oneFileGeometry : Geometry := ⟨512, 1, 2, 2, 1000⟩

/-- The directory sector. -/
def oneFileDir (filename content : List UInt8) : Buf :=
  withEntry (fun _ => 0) 0 (formatFatName filename) 3 content.length

/-- A volume with one file, in cluster 3. -/
def oneFileVolume (filename content : List UInt8) : FatState where
  toGeometry := oneFileGeometry
  diskBuffer := fun _ => 0
  writeBuffer := fun _ => 0
  disk := fun n =>
    if n = 1 then toSector (put (fun _ => 0) 0 (List.replicate 16 0xFF))
    else if n = 2 then toSector (oneFileDir filename content)
    else if n = 3 then toSector (put (fun _ => 0) 0 content)
    else fun _ => 0
  io := fun _ => true

section
variable {filename content : List UInt8}

theorem oneFileVolume_entry {c : ℕ} (hc : c = 2 ∨ c = 3) :
    (oneFileVolume filename content).entry c = 0x0FFFFFFF := by
  have hentry : fatEntry (toSector (put (fun _ => 0) 0 (List.replicate 16 0xFF))).buf c =
      0x0FFFFFFF := by
    rcases hc with rfl | rfl <;> decide
  have hfat : oneFileGeometry.fatStartSector + c / 128 = 1 ∧ c % 128 = c := by
    rcases hc with rfl | rfl <;> decide
  have hdisk : (oneFileVolume filename content).disk 1 =
      toSector (put (fun _ => 0) 0 (List.replicate 16 0xFF)) := rfl
  rw [FatState.entry, show (oneFileVolume filename content).toGeometry = oneFileGeometry from rfl,
    hfat.1, hfat.2, hdisk, hentry]

theorem oneFileVolume_next {c : ℕ} (hc : c = 2 ∨ c = 3) :
    (oneFileVolume filename content).next c = none := by
  rw [FatState.next, oneFileVolume_entry hc]
  rfl

theorem oneFileVolume_wellFormed : (oneFileVolume filename content).WellFormed 126 [2] where
  layout := by constructor <;> simp [oneFileVolume, oneFileGeometry, Geometry.sectorsPerCluster]
  rootChain := .last (oneFileVolume_next (.inl rfl))
  root_valid := by simp [ValidCluster]
  root_taken := by simp [oneFileVolume_entry]

theorem oneFileVolume_rootSector : (oneFileVolume filename content).rootSector = 2 := by
  have h : oneFileGeometry.rootSector = 2 := by decide
  exact h

theorem oneFileVolume_dirSector {k : ℕ} (hk : k < 512) :
    (oneFileVolume filename content).dirSector [2] 0 k = oneFileDir filename content k := by
  have hd := oneFileVolume_wellFormed.dirSector_eq (s := oneFileVolume filename content)
    (show 0 < 16 by decide)
  have hdisk : (oneFileVolume filename content).disk 2 =
      toSector (oneFileDir filename content) := by
    dsimp only [oneFileVolume]
    rw [if_neg (by decide), if_pos rfl]
  rw [hd, oneFileVolume_rootSector, hdisk, buf_toSector hk]

theorem oneFileVolume_size (hl : content.length ≤ 512) :
    slotSize ((oneFileVolume filename content).dirSector [2] 0) 0 = content.length := by
  rw [slotSize_congr (fun _ => oneFileVolume_dirSector) (by decide)]
  exact slotSize_withEntry_self (formatFatName_length filename) (by omega)

/-- **It stores the file.** -/
theorem oneFileVolume_stores (h0 : (0 : UInt8) ∉ filename) (hl : content.length ≤ 512) :
    (oneFileVolume filename content).Stores 126 [2] filename 0 [3] := by
  have hlen := formatFatName_length filename
  have hspc : (oneFileVolume filename content).sectorsPerCluster = 1 :=
    (show oneFileGeometry.sectorsPerCluster = 1 by decide)
  constructor
  · simp [hspc]
  · intro n hn
    obtain rfl := Nat.le_zero.1 hn
    rw [oneFileVolume_dirSector (by decide)]
    exact withEntry_first hlen (nul_not_mem_formatFatName h0)
  · rw [slotName_congr (fun _ => oneFileVolume_dirSector) (by decide)]
    exact slotName_withEntry_self hlen
  · nofun
  · rw [slotCluster_congr (fun _ => oneFileVolume_dirSector) (by decide), oneFileDir,
      slotCluster_withEntry_self hlen (by decide)]
    exact .inl (.last (oneFileVolume_next (.inr rfl)))
  · simp [ValidCluster]
  · simp [oneFileVolume_entry]
  · simp
  · rw [oneFileVolume_size hl]
    simpa [hspc] using hl

/-- The content of the file is `content`. -/
theorem oneFileVolume_content (hl : content.length ≤ 512) :
    (oneFileVolume filename content).content [2] 0 [3] = content := by
  have hchain : Chain (oneFileVolume filename content).next 3 [3] :=
    .last (oneFileVolume_next (.inr rfl))
  have htake := @FatState.fileBytes_take _ _ _ hchain content.length 512 (Nat.le_refl 512)
  have h3 : (oneFileVolume filename content).clusterToSector 3 = 3 :=
    (show oneFileGeometry.clusterToSector 3 = 3 by decide)
  have hsector : ((oneFileVolume filename content).disk 3).buf =
      (toSector (put (fun _ => 0) 0 content)).buf := rfl
  rw [h3, hsector, Nat.min_eq_left hl, bytesAt_toSector _ (by omega), bytesAt_put_self] at htake
  rw [List.take_of_length_le (by simpa [FatState.fileBytes] using hl)] at htake
  rw [FatState.content, oneFileVolume_size hl, htake]

end

end Fat32
end AiOsExchange
