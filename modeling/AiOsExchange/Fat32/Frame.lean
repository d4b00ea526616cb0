/-
# What an append leaves alone

An append writes two sectors: the first sector of the cluster its walk stops at, and the root
sector, with another size in the slot it found.  Nothing compares the first one with the file.

| the file | the sector that is written |
| --- | --- |
| has clusters, all in the first FAT sector | is one of its own |
| has none, so that its entry has cluster 0 | lies two clusters before the data |
| has a cluster from 128 on | is what the memory behind the FAT sector leads to |
| has its entry behind the first root sector | is a new file's, and the FAT sector |

So the calls for a file keep out of what is not its own in the first case, and in the last one when
no FAT entry is free, and in no other (`append_frame_iff`).
-/

import AiOsExchange.Fat32.Walk

namespace AiOsExchange
namespace Fat32

open CMemory Chains

/-! ### The frame of a file -/

/-- From `s` to `s'` only sectors of the file's clusters and its entry may change. -/
structure FatState.OwnOnly (s s' : FatState) (root : List ℕ) (slot : ℕ) (chain : List ℕ) : Prop where
  sectors : ∀ n, n ≠ s.chainSector root (slot / 16) →
    (∀ c ∈ chain, ∀ j < s.sectorsPerCluster, n ≠ s.clusterToSector c + j) → s'.disk n = s.disk n
  entries : ∀ k < 512, ¬ (32 * (slot % 16) ≤ k ∧ k < 32 * (slot % 16) + 32) →
    (s'.disk (s.chainSector root (slot / 16))).buf k =
      (s.disk (s.chainSector root (slot / 16))).buf k

/-- The volume with other memory at `disk_buffer` and other outcomes of the block requests. -/
def FatState.withMemory (s : FatState) (mem : Buf) (io : ℕ → Bool) : FatState :=
  { s with diskBuffer := mem, io := io }

/-- **The appends to a file keep to the file**, whatever the data, the outcomes of the block
requests and the memory behind the FAT sector. -/
def FatState.KeepsToFile (s : FatState) (filename : List UInt8) (root : List ℕ) (slot : ℕ)
    (chain : List ℕ) : Prop :=
  ∀ mem io fuel data length s',
    fsAppendFileContent fuel filename data length (s.withMemory mem io) = some s' →
      s.OwnOnly s' root slot chain

section
variable {s s' : FatState} {count slot c e m : ℕ} {root chain : List ℕ} {filename : List UInt8}
  {mem : Buf} {io : ℕ → Bool}

theorem FatState.OwnOnly.of_disk_eq (h : s'.disk = s.disk) : s.OwnOnly s' root slot chain :=
  ⟨fun n _ _ => by rw [h], fun k _ _ => by rw [h]⟩

theorem FatState.WellFormed.withMemory (h : s.WellFormed count root) :
    (s.withMemory mem io).WellFormed count root :=
  ⟨h.layout, h.rootChain, h.root_valid, h.root_taken⟩

theorem FatState.Stores.withMemory (h : s.Stores count root filename slot chain) :
    (s.withMemory mem io).Stores count root filename slot chain :=
  ⟨h.slot_lt, h.used, h.name, h.first, h.fileChain, h.valid, h.taken, h.apart, h.size_le⟩

theorem appendable_withMemory (mem : Buf) (hw : s.WellFormed count root)
    (hs : s.Stores count root filename slot chain) (hslot : slot < 16) (hne : chain ≠ [])
    (hlow : ∀ c ∈ chain, c < 128) :
    (s.withMemory mem fun _ => true).Appendable count root filename slot chain :=
  ⟨hw.withMemory, hs.withMemory, hslot, hne, hlow, fun _ => rfl⟩

/-- The call finds the entry of a file of the first root sector. -/
theorem appendSlot_of_stores (hw : s.WellFormed count root)
    (hs : s.Stores count root filename slot chain) (hslot : slot < 16) :
    appendSlot s.rootDir (formatFatName filename) = some slot :=
  hs.appendSlot_eq hw hslot

/-- It misses the others. -/
theorem appendSlot_of_stores_none (hw : s.WellFormed count root)
    (hs : s.Stores count root filename slot chain) (hslot : 16 ≤ slot) :
    appendSlot s.rootDir (formatFatName filename) = none := by
  rw [FatState.rootDir, appendSlot, List.find?_eq_none]
  intro j hj
  have hlt := List.mem_range.1 hj
  have := hs.first j (by omega)
  rw [hw.dirSector_eq hlt, Nat.mod_eq_of_lt hlt] at this
  simpa using this

/-- The cluster in the entry of a file of the first root sector. -/
theorem slotCluster_of_stores (hw : s.WellFormed count root) (hslot : slot < 16) :
    slotCluster (s.dirSector root slot) (slot % 16) = slotCluster s.rootDir slot := by
  rw [hw.dirSector_eq hslot, Nat.mod_eq_of_lt hslot]
  rfl

theorem rootSector_eq (hw : s.WellFormed count root) (hslot : slot < 16) :
    s.chainSector root (slot / 16) = s.rootSector := by
  rw [Nat.div_eq_of_lt hslot, Geometry.chainSector_zero hw.rootChain]
  rfl

/-! ### Where the frame holds -/

/-- **An append whose walk stops in the chain keeps to the file.** -/
theorem ownOnly_appendDisk {data : Buf} {length : ℕ} (hw : s.WellFormed count root)
    (hs : s.Stores count root filename slot chain) (hslot : slot < 16) (hc : c ∈ chain)
    (hd : s'.disk = (s.withMemory mem io).appendDisk slot c data length) :
    s.OwnOnly s' root slot chain := by
  have hne : s.rootSector ≠ s.clusterToSector c :=
    (hw.sector_ne_root (hs.valid c hc) (hs.apart c hc)).symm
  constructor
  · intro n hn hout
    have htarget := hout c hc 0 hw.layout.sectorsPerCluster_pos
    rw [Nat.add_zero] at htarget
    rw [rootSector_eq hw hslot] at hn
    rw [hd]
    exact FatState.appendDisk_of_ne (s := s.withMemory mem io) slot data length htarget hn
  · intro k hk hout
    rw [rootSector_eq hw hslot, hd]
    rw [Nat.mod_eq_of_lt hslot] at hout
    rcases FatState.appendDisk_root (s := s.withMemory mem io) slot data length hne with h | ⟨v, h⟩
    · exact congrArg (fun sec => Sector.buf sec k) h
    · refine (congrArg (fun sec => Sector.buf sec k) h).trans ((buf_toSector hk).trans ?_)
      rw [FatState.Appendable.resized]
      rcases Nat.lt_or_ge k (32 * slot + 28) with hlt | hge
      · exact put_of_lt hlt
      · exact put_of_ge (by rw [toLE_length]; omega)

/-- **A file of the first root sector with all its clusters in the first FAT sector.** -/
theorem keepsToFile_of_low (hw : s.WellFormed count root)
    (hs : s.Stores count root filename slot chain) (hslot : slot < 16) (hne : chain ≠ [])
    (hlow : ∀ c ∈ chain, c < 128) : s.KeepsToFile filename root slot chain := by
  intro mem io fuel data length s' hs'
  cases h0 : (s.withMemory mem io).io 0 with
  | false =>
      rw [fsAppendFileContent, FatState.readDisk_false _ _ h0] at hs'
      exact .of_disk_eq (by rw [← Option.some.inj hs']; rfl)
  | true =>
      have hfound : appendSlot (s.withMemory mem io).rootDir (formatFatName filename) = some slot :=
        appendSlot_of_stores hw.withMemory hs.withMemory hslot
      have h := append_disk fuel data length h0 hfound
      rw [hs', Option.map_some] at h
      cases h1 : (s.withMemory mem io).io 1 with
      | false =>
          rw [h1] at h
          exact .of_disk_eq (Option.some.inj h)
      | true =>
          rw [h1, if_pos rfl] at h
          have hlast := (appendable_withMemory mem hw hs hslot hne hlow).fatWalk_eq mem
            (Nat.le_add_left chain.length fuel)
          cases hwalk : fatWalk (s.withMemory mem io).loadedFat (s.withMemory mem io).maxValidClusters
              fuel (slotCluster (s.withMemory mem io).rootDir slot) 0 with
          | running => simp [hwalk] at h
          | aborted => rw [hwalk] at h; exact .of_disk_eq (Option.some.inj h)
          | stopped c =>
              rw [hwalk] at h
              have hmore := fatWalk_more (by rw [hwalk]; simp) chain.length
              have hc : c = chain.getLast hne := by
                have := hmore.symm.trans hlast
                rw [hwalk] at this
                exact Walk.stopped.inj this
              exact ownOnly_appendDisk hw hs hslot (hc ▸ List.getLast_mem hne) (Option.some.inj h)

/-- **A file behind the first root sector, and no free FAT entry.** -/
theorem keepsToFile_of_full (hw : s.WellFormed count root)
    (hs : s.Stores count root filename slot chain) (hslot : 16 ≤ slot)
    (hfull : freeCluster (s.disk s.fatStartSector).buf = none) :
    s.KeepsToFile filename root slot chain := by
  intro mem io fuel data length s' hs'
  refine .of_disk_eq ?_
  rw [fsAppendFileContent] at hs'
  cases h0 : (s.withMemory mem io).io 0 with
  | false =>
      rw [FatState.readDisk_false _ _ h0] at hs'
      rw [← Option.some.inj hs']
      rfl
  | true =>
      rw [FatState.readDisk_true _ _ h0] at hs'
      have hmiss : appendSlot (load (s.disk s.rootSector) mem) (formatFatName filename) = none := by
        rw [appendSlot_load]
        exact appendSlot_of_stores_none hw hs hslot
      simp only [FatState.withMemory, hmiss] at hs'
      rw [← Option.some.inj hs']
      exact disk_write_of_stuck (.inr hfull)

/-! ### Where it does not -/

/-- Two clusters less than 2³² sectors apart have different sectors. -/
theorem clusterToSector_ne {g : Geometry} (hg : g.WellFormed count) (hc : ValidCluster count c)
    (he : e < 2 ^ 32) (hce : c < e) (hfar : (e - c) * g.sectorsPerCluster < 2 ^ 32) {j : ℕ}
    (hj : j < g.sectorsPerCluster) : g.clusterToSector e ≠ g.clusterToSector c + j := by
  have hc2 := hc.1
  have hoff : (e + (2 ^ 32 - 2)) % 2 ^ 32 = e - 2 := by omega
  have hsplit : (e - 2) * g.sectorsPerCluster =
      (c - 2) * g.sectorsPerCluster + (e - c) * g.sectorsPerCluster := by
    rw [← Nat.add_mul, show c - 2 + (e - c) = e - 2 by omega]
  have hone : 1 * g.sectorsPerCluster ≤ (e - c) * g.sectorsPerCluster :=
    Nat.mul_le_mul_right _ (by omega)
  have heq : g.clusterToSector e =
      (g.dataStartSector + (e - 2) * g.sectorsPerCluster) % 2 ^ 32 := by
    simp only [Geometry.clusterToSector, hoff, Geometry.sectorsPerCluster]
  rw [heq, hg.clusterToSector_eq hc, hsplit]
  generalize (e - c) * g.sectorsPerCluster = w at *
  generalize (c - 2) * g.sectorsPerCluster = v
  intro h
  omega

/-- A number that is no cluster's and of which no FAT entry is loaded. -/
def outsider (count : ℕ) : ℕ := max (count + 2) 128

/-- **Its sector is outside of the volume.** -/
theorem outsider_ne {g : Geometry} (hg : g.WellFormed count) (hcount : count ≤ 0x0FFFFFF5)
    (hc : ValidCluster count c) {j : ℕ} (hj : j < g.sectorsPerCluster) :
    g.clusterToSector (outsider count) ≠ g.clusterToSector c + j := by
  obtain ⟨hc2, hcn⟩ := hc
  have hle := hg.clusters_le
  have hfat := hg.fat_le
  refine clusterToSector_ne hg ⟨hc2, hcn⟩ (by unfold outsider; omega) (by unfold outsider; omega) ?_ hj
  rcases Nat.le_total 128 (count + 2) with h | h
  · have : (outsider count - c) * g.sectorsPerCluster ≤ count * g.sectorsPerCluster :=
      Nat.mul_le_mul_right _ (by unfold outsider; omega)
    omega
  · have : (outsider count - c) * g.sectorsPerCluster ≤ 126 * 256 :=
      Nat.mul_le_mul (by unfold outsider; omega) (Nat.le_of_lt hg.sectorsPerCluster_lt)
    omega

/-- Memory that shows `v` as entry `m`. -/
def memoryWith (m v : ℕ) : Buf := put (fun _ => 0) (4 * m) (toLE 4 v)

theorem fatEntry_memory {sec : Sector} (hc : 128 ≤ c) :
    fatEntry (load sec mem) c = fatEntry mem c := by
  have h : bytesAt (load sec mem) (4 * c) 4 = bytesAt mem (4 * c) 4 :=
    bytesAt_congr fun k _ => dif_neg (by omega)
  rw [fatEntry, fatEntry, u32, u32, h]

theorem fatEntry_memoryWith {v : ℕ} (hv : v < 2 ^ 28) :
    fatEntry (memoryWith m v) c = if c = m then v else 0 := by
  split_ifs with h
  · have hself : bytesAt (memoryWith m v) (4 * m) 4 = toLE 4 v := by
      have := bytesAt_put_self (fun _ => 0) (4 * m) (toLE 4 v)
      rwa [toLE_length] at this
    rw [h, fatEntry, u32, hself, ofLE_toLE (by omega), Nat.mod_eq_of_lt hv]
  · have hother : bytesAt (memoryWith m v) (4 * c) 4 = bytesAt (fun _ => 0) (4 * c) 4 :=
      bytesAt_put_of_disjoint _ (by rw [toLE_length]; omega)
    rw [fatEntry, u32, hother]
    rfl

/-- From an entry outside of the loaded sector the memory leads anywhere. -/
theorem loadedNext_memoryWith {sec : Sector} {v : ℕ} (hc : 128 ≤ c) (hv : v < 0x0FFFFFF8) :
    loadedNext (load sec (memoryWith m v)) c = if c = m ∧ 2 ≤ v then some v else none := by
  rw [loadedNext, fatEntry_memory hc, fatEntry_memoryWith (by omega)]
  by_cases h : c = m
  · simp [h, hv]
  · simp [h]

/-- **A walk that stops outside of the volume loses the frame.** -/
theorem not_keepsToFile_of_outside (hw : s.WellFormed count root)
    (hs : s.Stores count root filename slot chain) (hslot : slot < 16) {fuel : ℕ}
    (hout : s.clusterToSector e ≠ s.rootSector)
    (hchain : ∀ c ∈ chain, ∀ j < s.sectorsPerCluster, s.clusterToSector e ≠ s.clusterToSector c + j)
    (hwalk : fatWalk (load (s.disk s.fatStartSector) mem) s.maxValidClusters fuel
      (slotCluster s.rootDir slot) 0 = .stopped e) :
    ¬ s.KeepsToFile filename root slot chain := by
  intro hkeep
  -- one byte of data, other than the one that is there
  generalize hbyte : (s.disk (s.clusterToSector e)).buf (slotSize s.rootDir slot % 512) = old
  have hoffset : slotSize s.rootDir slot % 512 < 512 := Nat.mod_lt _ (by decide)
  obtain ⟨s', hs', hdisk⟩ := append_of_stopped (s := s.withMemory mem fun _ => true)
    (fun _ => old + 1) 1 rfl rfl
    (appendSlot_of_stores hw.withMemory hs.withMemory hslot) hwalk
  have hsame := (hkeep _ _ _ _ _ _ hs').sectors (s.clusterToSector e)
    (by rwa [rootSector_eq hw hslot]) hchain
  have htarget := FatState.appendDisk_target (s := s.withMemory mem fun _ => true) slot
    (fun _ => old + 1) 1 rfl rfl hout
  have hcopied : (s.withMemory mem fun _ => true).copied slot 1 = 1 :=
    Nat.min_eq_left (Nat.le_sub_of_add_le (by
      have : slotSize (s.withMemory mem fun _ => true).rootDir slot % 512 < 512 := hoffset
      omega))
  have hput : ((s.disk (s.clusterToSector e)).put (slotSize s.rootDir slot % 512) [old + 1]).buf
      (slotSize s.rootDir slot % 512) = old + 1 := by
    rw [Sector.put, buf_toSector hoffset]
    exact put_cons_self _ _ _ _
  have hnew : (s'.disk (s.clusterToSector e)).buf (slotSize s.rootDir slot % 512) = old + 1 := by
    rw [hcopied] at htarget
    rw [hdisk, show s.clusterToSector e = (s.withMemory mem fun _ => true).clusterToSector e from rfl,
      htarget]
    exact hput
  rw [hsame, hbyte] at hnew
  exact absurd hnew (by simp)

theorem clusterToSector_rootCluster (hw : s.WellFormed count root) (hcount : count ≤ 0x0FFFFFF5) :
    s.clusterToSector (outsider count) ≠ s.rootSector := by
  have h := outsider_ne hw.layout hcount hw.rootCluster_valid hw.layout.sectorsPerCluster_pos
  rwa [Nat.add_zero] at h

/-- The cluster in the entry of a file of the first root sector. -/
theorem chain_of_stores (hw : s.WellFormed count root)
    (hs : s.Stores count root filename slot chain) (hslot : slot < 16) (hne : chain ≠ []) :
    Chain s.next (slotCluster s.rootDir slot) chain := by
  have h := hs.chain_of_ne_nil hne
  rwa [hw.dirSector_eq hslot, Nat.mod_eq_of_lt hslot] at h

/-- **A chain that leaves the first FAT sector**: from there the walk goes where the memory
leads. -/
theorem not_keepsToFile_of_high (hw : s.WellFormed count root)
    (hs : s.Stores count root filename slot chain) (hcount : count ≤ 0x0FFFFFF5) (hslot : slot < 16)
    (hne : chain ≠ []) (hhigh : ∃ c ∈ chain, 128 ≤ c) : ¬ s.KeepsToFile filename root slot chain := by
  have hchain := chain_of_stores hw hs hslot hne
  have hexists : ∃ k d : ℕ, chain[k]? = some d ∧ 128 ≤ d := by
    obtain ⟨c, hc, hge⟩ := hhigh
    obtain ⟨k, hk⟩ := List.mem_iff_getElem?.1 hc
    exact ⟨k, c, hk, hge⟩
  classical
  -- `d`, after `k` steps, is the first cluster with its entry in another FAT sector
  obtain ⟨k, ⟨d, hd, hdhigh⟩, hmin⟩ : ∃ k : ℕ, (∃ d, chain[k]? = some d ∧ 128 ≤ d) ∧
      ∀ j < k, ¬ ∃ d, chain[j]? = some d ∧ 128 ≤ d :=
    ⟨Nat.find hexists, Nat.find_spec hexists, fun j hj => Nat.find_min hexists hj⟩
  have hbefore : ∀ j < k, ∀ b, path s.next (slotCluster s.rootDir slot) j = some b → b < 128 := by
    intro j hj b hb
    rw [hchain.path_eq] at hb
    exact Nat.lt_of_not_le fun hge => hmin j hj ⟨b, hb, hge⟩
  have hvalid := hs.valid d (List.mem_of_getElem? hd)
  have hout : outsider count < 0x0FFFFFF8 := by unfold outsider; omega
  have hne' : d ≠ outsider count := by
    have := hvalid.2
    unfold outsider
    omega
  have hpath : path (loadedNext (s.withMemory (memoryWith d (outsider count)) s.io).loadedFat)
      (slotCluster s.rootDir slot) (k + 1) = some (outsider count) := by
    have hk := path_loadedNext (s := s.withMemory (memoryWith d (outsider count)) s.io) hbefore
      (Nat.le_refl k)
    have hd' : path (s.withMemory (memoryWith d (outsider count)) s.io).next
        (slotCluster s.rootDir slot) k = some d := (hchain.path_eq k).trans hd
    rw [path, hk, hd', Option.bind_some]
    refine (loadedNext_memoryWith hdhigh hout).trans (if_pos ⟨rfl, ?_⟩)
    unfold outsider
    omega
  have hlen := hs.length_le
  have hk : k < chain.length := (List.getElem?_eq_some_iff.1 hd).1
  have hmax := hw.layout.count_le
  refine not_keepsToFile_of_outside hw hs hslot (clusterToSector_rootCluster hw hcount)
    (fun c hc j hj => outsider_ne hw.layout hcount (hs.valid c hc) hj)
    ((fatWalk_path hw.layout.maxValidClusters_lt hpath (.inl (by omega))).2 ?_)
  refine (loadedNext_memoryWith ?_ hout).trans (if_neg fun h => hne' h.1.symm)
  exact Nat.le_max_right _ _

/-- Cluster 0 lies in front of the data. -/
theorem clusterToSector_zero_ne {g : Geometry} (hg : g.WellFormed count) (hc : ValidCluster count c) :
    g.clusterToSector 0 ≠ g.clusterToSector c := by
  obtain ⟨hc2, hcn⟩ := hc
  have hspc := hg.sectorsPerCluster_lt
  have hpos := hg.sectorsPerCluster_pos
  have hle := hg.clusters_le
  have hfat := hg.fat_le
  have hcle : c * g.sectorsPerCluster ≤ (count + 1) * g.sectorsPerCluster :=
    Nat.mul_le_mul_right _ (by omega)
  have htwo : 2 * g.sectorsPerCluster ≤ c * g.sectorsPerCluster := Nat.mul_le_mul_right _ hc2
  -- a small volume is small, and in a large one the FAT is longer than a cluster
  have hlt : c * g.sectorsPerCluster < 2 ^ 32 := by
    rw [Nat.add_mul, Nat.one_mul] at hcle
    rcases Nat.lt_or_ge count (2 ^ 16) with hsmall | hlarge
    · have : count * g.sectorsPerCluster ≤ 2 ^ 16 * 256 := Nat.mul_le_mul (by omega) (by omega)
      omega
    · omega
  have heq : g.clusterToSector 0 =
      (g.dataStartSector + (2 ^ 32 - 2) * g.sectorsPerCluster) % 2 ^ 32 := rfl
  rw [heq, hg.clusterToSector_eq ⟨hc2, hcn⟩, Nat.sub_mul, Nat.sub_mul]
  generalize c * g.sectorsPerCluster = w at *
  generalize g.sectorsPerCluster = spc at *
  intro h
  omega

/-- So do the clusters that a media mark may be read as, on a volume of less than 126. -/
theorem clusterToSector_media_ne {g : Geometry} (hg : g.WellFormed count) (hc : ValidCluster count c)
    (hcount : count < 126) (hm : 0x0FFFFFF0 ≤ m ∧ m < 0x0FFFFFF8) :
    g.clusterToSector m ≠ g.clusterToSector c := by
  obtain ⟨hc2, hcn⟩ := hc
  obtain ⟨hm0, hm8⟩ := hm
  have hspc := hg.sectorsPerCluster_lt
  have hpos := hg.sectorsPerCluster_pos
  have hoff : (m + (2 ^ 32 - 2)) % 2 ^ 32 = m - 2 := by omega
  have heq : g.clusterToSector m =
      (g.dataStartSector + (m - 2) * g.sectorsPerCluster) % 2 ^ 32 := by
    simp only [Geometry.clusterToSector, hoff, Geometry.sectorsPerCluster]
  have hsplit : (m - 2) * g.sectorsPerCluster + (2 ^ 28 - m + c) * g.sectorsPerCluster =
      2 ^ 28 * g.sectorsPerCluster + (c - 2) * g.sectorsPerCluster := by
    rw [← Nat.add_mul, ← Nat.add_mul, show m - 2 + (2 ^ 28 - m + c) = 2 ^ 28 + (c - 2) by omega]
  have hlow : 1 * g.sectorsPerCluster ≤ (2 ^ 28 - m + c) * g.sectorsPerCluster :=
    Nat.mul_le_mul_right _ (by omega)
  have hhigh : (2 ^ 28 - m + c) * g.sectorsPerCluster ≤ 256 * 256 :=
    Nat.mul_le_mul (by omega) (Nat.le_of_lt hspc)
  rw [heq, hg.clusterToSector_eq ⟨hc2, hcn⟩]
  generalize (m - 2) * g.sectorsPerCluster = u at *
  generalize (2 ^ 28 - m + c) * g.sectorsPerCluster = w at *
  generalize (c - 2) * g.sectorsPerCluster = v at *
  generalize g.sectorsPerCluster = spc at *
  intro h
  omega

/-- **An empty file**: the walk starts at the media mark. -/
theorem not_keepsToFile_of_empty (hw : s.WellFormed count root)
    (hs : s.Stores count root filename slot []) (hcount : count ≤ 0x0FFFFFF5)
    (hmedia : 0x0FFFFFF0 ≤ s.entry 0) (hslot : slot < 16) :
    ¬ s.KeepsToFile filename root slot [] := by
  have hzero : slotCluster s.rootDir slot = 0 := by
    have h := hs.fileChain.resolve_left fun h => h.ne_nil rfl
    rw [← slotCluster_of_stores hw hslot]
    exact h.1
  have hmax := hw.layout.maxValidClusters_lt
  have hle := hw.layout.count_le
  have hone := hw.rootCluster_valid
  have hcl : 1 ≤ count := by unfold ValidCluster at hone; omega
  have hfirst (mem : Buf) : loadedNext (load (s.disk s.fatStartSector) mem) 0 = s.next 0 :=
    loadedNext_eq (s.withMemory mem s.io) (by decide)
  -- any cluster the walk comes to in this way is as good as an outsider
  have hescape {k e : ℕ} (mem : Buf) (hk : k ≤ s.maxValidClusters)
      (hout : s.clusterToSector e ≠ s.rootSector)
      (hpath : path (loadedNext (load (s.disk s.fatStartSector) mem)) 0 k = some e)
      (hend : loadedNext (load (s.disk s.fatStartSector) mem) e = none) :
      ¬ s.KeepsToFile filename root slot [] := by
    have hwalk : fatWalk (load (s.disk s.fatStartSector) mem) s.maxValidClusters (k + 1)
        (slotCluster s.rootDir slot) 0 = .stopped e := by
      rw [hzero]
      exact (fatWalk_path hmax hpath (.inl (by omega))).2 hend
    exact not_keepsToFile_of_outside hw hs hslot hout nofun hwalk
  rcases Nat.lt_or_ge (s.entry 0) 0x0FFFFFF8 with hlink | heoc
  · -- the mark is taken for a cluster
    have hnext : s.next 0 = some (s.entry 0) := by
      rw [FatState.next, if_pos ⟨by omega, hlink⟩]
    have hstep (mem : Buf) :
        path (loadedNext (load (s.disk s.fatStartSector) mem)) 0 1 = some (s.entry 0) := by
      rw [path_succ', hfirst, hnext]
      rfl
    rcases Nat.lt_or_ge count 126 with hsmall | hlarge
    · refine hescape (memoryWith 0 0) (by omega) ?_ (hstep _) ?_
      · exact clusterToSector_media_ne hw.layout hw.rootCluster_valid hsmall ⟨hmedia, hlink⟩
      · exact (loadedNext_memoryWith (by omega) (by decide)).trans (if_neg (by omega))
    · have hout : outsider count < 0x0FFFFFF8 ∧ 128 ≤ outsider count ∧ 2 ≤ outsider count := by
        unfold outsider
        omega
      by_cases hsame : s.entry 0 = outsider count
      · refine hescape (memoryWith 0 0) (by omega) ?_ (hstep _) ?_
        · rw [hsame]
          exact clusterToSector_rootCluster hw hcount
        · exact (loadedNext_memoryWith (by omega) (by decide)).trans (if_neg (by omega))
      · refine hescape (k := 2) (memoryWith (s.entry 0) (outsider count)) (by omega)
          (clusterToSector_rootCluster hw hcount) ?_ ?_
        · rw [path, hstep, Option.bind_some]
          exact (loadedNext_memoryWith (by omega) hout.1).trans (if_pos ⟨rfl, hout.2.2⟩)
        · exact (loadedNext_memoryWith hout.2.1 hout.1).trans (if_neg fun h => hsame h.1.symm)
  · refine hescape (k := 0) (fun _ => 0) (Nat.zero_le _)
      (clusterToSector_zero_ne hw.layout hw.rootCluster_valid) rfl ?_
    rw [hfirst, FatState.next, if_neg (by omega)]

/-- A write with a free entry changes the first FAT sector. -/
theorem write_changes_fat {data : Buf} (hw : s.WellFormed count root) (hio : ∀ n, s.io n = true)
    (hc : freeCluster (s.disk s.fatStartSector).buf = some c)
    (hdata : data 0 ≠ (s.disk s.fatStartSector).buf 0) :
    (fsWriteFileContent filename data 1 s).disk s.fatStartSector ≠ s.disk s.fatStartSector := by
  have hroot : s.fatStartSector ≠ s.rootSector := by
    have hv : ValidCluster count 2 := by
      have := hw.rootCluster_valid
      unfold ValidCluster at *
      omega
    have := hw.fat_ne hw.rootCluster_valid hv
    rwa [show 2 / 128 = 0 from rfl, Nat.add_zero] at this
  have hlt := (freeCluster_bounds hc).2
  have hstored : s.afterData c data 1 s.fatStartSector ≠ s.disk s.fatStartSector := by
    intro heq
    rw [FatState.afterData, if_pos (hio 2)] at heq
    by_cases hsame : s.fatStartSector = s.clusterToSector c
    · -- the data goes into the FAT sector
      rw [hsame, Function.update_self, ← hsame] at heq
      refine hdata ?_
      rw [← heq, dataSector, buf_toSector (by decide), dataBlock]
      rfl
    · rw [Function.update_of_ne hsame, FatState.afterFat, if_pos (hio 1), Function.update_self] at heq
      have hfree := fatEntry_of_freeCluster hc
      rw [← heq, fatEntry_put_endOfChain hlt, if_pos rfl] at hfree
      exact absurd hfree (by decide)
  rw [disk_write (hio 0) hc]
  cases s.enteredSlot c data 1 with
  | none => exact hstored
  | some i =>
      exact fun heq => hstored ((Function.update_of_ne hroot _ _).symm.trans heq)

/-- **A file behind the first root sector**: a new one is entered. -/
theorem not_keepsToFile_of_free (hw : s.WellFormed count root)
    (hs : s.Stores count root filename slot chain) (hslot : 16 ≤ slot)
    (hc : freeCluster (s.disk s.fatStartSector).buf = some c) :
    ¬ s.KeepsToFile filename root slot chain := by
  intro hkeep
  have hmiss : appendSlot (load (s.disk s.rootSector) s.diskBuffer) (formatFatName filename) =
      none := by
    rw [appendSlot_load]
    exact appendSlot_of_stores_none hw hs hslot
  have hv : ValidCluster count 2 := by
    have := hw.rootCluster_valid
    unfold ValidCluster at *
    omega
  have hfat {c : ℕ} (hv' : ValidCluster count c) (j : ℕ) :
      s.fatStartSector ≠ s.clusterToSector c + j := by
    have := hw.layout.fat_lt (j := j) hv hv'
    omega
  have hentry : s.fatStartSector ≠ s.chainSector root (slot / 16) := by
    have hlt : slot / 16 / s.sectorsPerCluster < root.length := by
      have := hs.slot_lt
      rw [Nat.div_lt_iff_lt_mul hw.layout.sectorsPerCluster_pos, Nat.mul_comm root.length]
      omega
    rw [Geometry.chainSector_eq hlt]
    exact hfat (hw.root_valid _ (List.getElem_mem hlt)) _
  generalize hold : (s.disk s.fatStartSector).buf 0 = old
  have happend : fsAppendFileContent 0 filename (fun _ => old + 1) 1
      (s.withMemory s.diskBuffer fun _ => true) = some (fsWriteFileContent filename
        (fun _ => old + 1) 1 (s.withMemory (load (s.disk s.rootSector) s.diskBuffer) fun _ => true)) := by
    rw [fsAppendFileContent, FatState.readDisk_true _ _ rfl]
    simp only [FatState.withMemory, hmiss]
    rfl
  have hsame := (hkeep _ _ _ _ _ _ happend).sectors s.fatStartSector hentry
    fun c hc j _ => hfat (hs.valid c hc) j
  refine write_changes_fat (s := s.withMemory (load (s.disk s.rootSector) s.diskBuffer) fun _ => true)
    hw.withMemory (fun _ => rfl) hc ?_ hsame
  rw [show (s.withMemory (load (s.disk s.rootSector) s.diskBuffer) fun _ => true).disk = s.disk from
    rfl, show (s.withMemory (load (s.disk s.rootSector) s.diskBuffer) fun _ => true).fatStartSector =
    s.fatStartSector from rfl, hold]
  simp

end

/-- A volume with an empty file, which has no cluster; in front of its data are the FAT sector and
the boot sector. -/
def emptyFileVolume : FatState :=
  { oneFileVolume [65] [] with
    disk := fun n =>
      if n = 2 then toSector (withEntry (fun _ => 0) 0 (formatFatName [65]) 0 0)
      else (oneFileVolume [65] []).disk n }

theorem emptyFileVolume_wellFormed : emptyFileVolume.WellFormed 126 [2] where
  layout := (@oneFileVolume_wellFormed [65] []).layout
  rootChain := .last (by decide)
  root_valid := by simp [ValidCluster]
  root_taken := by
    intro c hc
    obtain rfl := List.mem_singleton.1 hc
    decide

theorem emptyFileVolume_stores : emptyFileVolume.Stores 126 [2] [65] 0 [] where
  slot_lt := by decide
  used n hn := by
    obtain rfl := Nat.le_zero.1 hn
    decide
  name := by decide
  first := nofun
  fileChain := .inr ⟨by decide, rfl⟩
  valid := nofun
  taken := nofun
  apart := nofun
  size_le := by decide

end Fat32
end AiOsExchange
