/-
# A write stores a new file

`fs_write_file_content` of `modules/fs/fat32.c` against the meaning of a volume.  A write that
has room (`Room`: a free cluster of the volume in the first FAT sector, a free slot in the first
directory sector, and the name in none before it) changes three sectors, which are not the same
on a volume: entry `c` of the FAT, the first sector of cluster `c` and one slot of the root
directory.  The volume stays well formed and has the file (`write_stores`); it is the first of
its name, so what else the disk holds does not matter.
-/

import AiOsExchange.Fat32.Volume
import AiOsExchange.Fat32.Written

namespace AiOsExchange
namespace Fat32

open CMemory Chains

/-- A write of `filename` will take cluster `c` and slot `i`, and no earlier slot has the name. -/
structure FatState.Room (s : FatState) (count : ℕ) (filename : List UInt8) (c i : ℕ) : Prop where
  free : freeCluster (s.disk s.fatStartSector).buf = some c
  valid : ValidCluster count c
  slot : freeSlot (s.disk s.rootSector).buf = some i
  new : ∀ j < i, slotName (s.disk s.rootSector).buf j ≠ formatFatName filename

section
variable {s s' : FatState} {count c i : ℕ} {root : List ℕ} {filename l : List UInt8}

/-! ### Three sectors -/

/-- A free cluster of the first FAT sector. -/
theorem entry_of_freeCluster (hc : freeCluster (s.disk s.fatStartSector).buf = some c) :
    s.entry c = 0 := by
  have hbounds := freeCluster_bounds hc
  rw [FatState.entry, Nat.div_eq_of_lt hbounds.2, Nat.mod_eq_of_lt hbounds.2, Nat.add_zero]
  exact fatEntry_of_freeCluster hc

theorem FatState.WellFormed.not_mem_root (h : s.WellFormed count root)
    (hc : freeCluster (s.disk s.fatStartSector).buf = some c) : c ∉ root :=
  fun hmem => h.root_taken c hmem (entry_of_freeCluster hc)

theorem FatState.WellFormed.rootCluster_valid (h : s.WellFormed count root) :
    ValidCluster count s.rootDirCluster := h.root_valid _ h.rootChain.mem_start

/-- A cluster outside the root directory does not have its sector. -/
theorem FatState.WellFormed.sector_ne_root (h : s.WellFormed count root) (hv : ValidCluster count c)
    (hc : c ∉ root) : s.clusterToSector c ≠ s.rootSector := by
  intro heq
  have hinj := @Geometry.WellFormed.sector_inj _ _ h.layout _ _ 0 0 hv h.rootCluster_valid
    h.layout.sectorsPerCluster_pos h.layout.sectorsPerCluster_pos
  rw [Nat.add_zero, Nat.add_zero] at hinj
  exact hc ((hinj heq).1 ▸ h.rootChain.mem_start)

/-- The FAT sectors of clusters are no cluster's. -/
theorem FatState.WellFormed.fat_ne (h : s.WellFormed count root) {c' : ℕ} (hv : ValidCluster count c)
    (hv' : ValidCluster count c') : s.fatStartSector + c' / 128 ≠ s.clusterToSector c := by
  have := h.layout.fat_lt (j := 0) hv' hv
  omega

/-- The directory a write finds is the one on the volume. -/
theorem FatState.WellFormed.dirBefore_eq (h : s.WellFormed count root) (hio : ∀ n, s.io n = true)
    (hc : freeCluster (s.disk s.fatStartSector).buf = some c) (hv : ValidCluster count c) :
    s.dirBefore c = (s.disk s.rootSector).buf := by
  have hroot : s.fatStartSector + c / 128 ≠ s.rootSector := h.fat_ne h.rootCluster_valid hv
  rw [Nat.div_eq_of_lt (freeCluster_bounds hc).2, Nat.add_zero] at hroot
  rw [FatState.dirBefore, FatState.afterFat, if_pos (hio 1), Function.update_of_ne hroot.symm]

/-- **The disk after a write with room.** -/
theorem written_of_room (h : s.WellFormed count root) (hio : ∀ n, s.io n = true)
    (hr : s.Room count filename c i) :
    s.written filename l =
      Function.update (Function.update (Function.update s.disk s.fatStartSector
        ((s.disk s.fatStartSector).put (4 * c) endOfChain))
        (s.clusterToSector c) (dataSector (cString l) l.length))
        s.rootSector (toSector (withEntry (s.disk s.rootSector).buf i (formatFatName filename) c
          l.length)) := by
  have hdir := h.dirBefore_eq hio hr.free hr.valid
  rw [written_eq (hio 0) hr.free (h.sector_ne_root hr.valid (h.not_mem_root hr.free)),
    FatState.slotFor, hdir, hr.slot]
  simp only [hio, Bool.and_self, if_true, FatState.afterData, FatState.afterFat]

/-- A FAT sector with an end mark in it. -/
theorem fatEntry_put_endOfChain {sec : Sector} {c' : ℕ} (hc' : c' < 128) :
    fatEntry (sec.put (4 * c) endOfChain).buf c' =
      if c' = c then 0x0FFFFFFF else fatEntry sec.buf c' := by
  have hput : fatEntry (sec.put (4 * c) endOfChain).buf c' =
      fatEntry (put sec.buf (4 * c) endOfChain) c' :=
    fatEntry_congr (fun _ hk => buf_toSector hk) hc'
  rw [hput]
  split_ifs with heq
  · have hself : bytesAt (put sec.buf (4 * c) endOfChain) (4 * c) 4 = endOfChain :=
      bytesAt_put_self _ _ _
    rw [fatEntry, u32, heq, hself]
    decide
  · rw [fatEntry, u32, bytesAt_put_of_disjoint _ (by rw [endOfChain, toLE_length]; omega)]
    rfl

/-- The FAT with an end mark in its first sector. -/
theorem entry_of_put (hg : s'.toGeometry = s.toGeometry) (hc : c < 128)
    (hfirst : s'.disk s.fatStartSector = (s.disk s.fatStartSector).put (4 * c) endOfChain) {c' : ℕ}
    (hother : 0 < c' / 128 →
      s'.disk (s.fatStartSector + c' / 128) = s.disk (s.fatStartSector + c' / 128)) :
    s'.entry c' = if c' = c then 0x0FFFFFFF else s.entry c' := by
  rw [FatState.entry, FatState.entry, hg]
  rcases Nat.eq_zero_or_pos (c' / 128) with hz | hpos
  · have hlt : c' < 128 := by omega
    rw [hz, Nat.add_zero, hfirst, Nat.mod_eq_of_lt hlt, fatEntry_put_endOfChain hlt]
  · have hne : c' ≠ c := by
      rintro rfl
      omega
    rw [hother hpos, if_neg hne]

/-- **The FAT after it**: one entry is an end mark. -/
theorem entry_of_room (h : s.WellFormed count root) (hio : ∀ n, s.io n = true)
    (hr : s.Room count filename c i) (hg : s'.toGeometry = s.toGeometry)
    (hd : s'.disk = s.written filename l) {c' : ℕ} (hv : ValidCluster count c') :
    s'.entry c' = if c' = c then 0x0FFFFFFF else s.entry c' := by
  have hlt := (freeCluster_bounds hr.free).2
  have hdisk := hd.trans (written_of_room h hio hr)
  refine entry_of_put hg hlt ?_ fun hpos => ?_
  · have hne := h.fat_ne hr.valid hr.valid
    have hroot : s.fatStartSector + c / 128 ≠ s.rootSector := h.fat_ne h.rootCluster_valid hr.valid
    rw [Nat.div_eq_of_lt hlt, Nat.add_zero] at hne hroot
    rw [hdisk, Function.update_of_ne hroot, Function.update_of_ne hne, Function.update_self]
  · have hroot : s.fatStartSector + c' / 128 ≠ s.rootSector := h.fat_ne h.rootCluster_valid hv
    rw [hdisk, Function.update_of_ne hroot, Function.update_of_ne (h.fat_ne hr.valid hv),
      Function.update_of_ne (by omega)]

theorem next_of_room (h : s.WellFormed count root) (hio : ∀ n, s.io n = true)
    (hr : s.Room count filename c i) (hg : s'.toGeometry = s.toGeometry)
    (hd : s'.disk = s.written filename l) {c' : ℕ} (hv : ValidCluster count c') (hne : c' ≠ c) :
    s'.next c' = s.next c' := by
  rw [FatState.next, FatState.next, entry_of_room h hio hr hg hd hv, if_neg hne]

/-! ### The file -/

/-- **The volume stays one.** -/
theorem wellFormed_of_room (h : s.WellFormed count root) (hio : ∀ n, s.io n = true)
    (hr : s.Room count filename c i) (hg : s'.toGeometry = s.toGeometry)
    (hd : s'.disk = s.written filename l) : s'.WellFormed count root := by
  have hroot : ∀ c' ∈ root, c' ≠ c := fun c' hmem heq => h.not_mem_root hr.free (heq ▸ hmem)
  constructor
  · rw [hg]
    exact h.layout
  · rw [hg]
    exact h.rootChain.congr fun c' hmem =>
      next_of_room h hio hr hg hd (h.root_valid c' hmem) (hroot c' hmem)
  · exact h.root_valid
  · intro c' hmem
    rw [entry_of_room h hio hr hg hd (h.root_valid c' hmem), if_neg (hroot c' hmem)]
    exact h.root_taken c' hmem

/-- The directory sector after it. -/
theorem rootSector_of_room (h : s.WellFormed count root) (hio : ∀ n, s.io n = true)
    (hr : s.Room count filename c i) (hg : s'.toGeometry = s.toGeometry)
    (hd : s'.disk = s.written filename l) {n k : ℕ} (hn : n < 16) (hk : k < 512) :
    s'.dirSector root n k =
      withEntry (s.disk s.rootSector).buf i (formatFatName filename) c l.length k := by
  have h' := wellFormed_of_room h hio hr hg hd
  rw [h'.dirSector_eq hn, hg, hd, written_of_room h hio hr, Function.update_self, buf_toSector hk]

/-- **A write with room stores the file.** -/
theorem stores_of_room (h : s.WellFormed count root) (hio : ∀ n, s.io n = true)
    (hr : s.Room count filename c i) (hg : s'.toGeometry = s.toGeometry)
    (hd : s'.disk = s.written filename l) (h0 : (0 : UInt8) ∉ filename) (hl : l.length ≤ 512) :
    s'.Stores count root filename i [c] ∧ s'.content root i [c] = l := by
  have hlen := formatFatName_length filename
  obtain ⟨hi, -, hbefore⟩ := freeSlot_eq_some_iff.1 hr.slot
  have hbounds := freeCluster_bounds hr.free
  have hmod : i % 16 = i := Nat.mod_eq_of_lt hi
  have hdir {n : ℕ} (hn : n < 16) : ∀ k < 512, s'.dirSector root n k =
      withEntry (s.disk s.rootSector).buf i (formatFatName filename) c l.length k :=
    fun k hk => rootSector_of_room h hio hr hg hd hn hk
  have hspc : s'.sectorsPerCluster = s.sectorsPerCluster := by rw [hg]
  have hpos := h.layout.sectorsPerCluster_pos
  have hsize : slotSize (s'.dirSector root i) (i % 16) = l.length := by
    rw [hmod, slotSize_congr (hdir hi) hi, slotSize_withEntry_self hlen (by omega)]
  have hcluster : slotCluster (s'.dirSector root i) (i % 16) = c := by
    rw [hmod, slotCluster_congr (hdir hi) hi, slotCluster_withEntry_self hlen (by omega)]
  have hend : Chain s'.next c [c] := by
    apply Chain.last
    rw [FatState.next, entry_of_room h hio hr hg hd hr.valid, if_pos rfl]
    rfl
  refine ⟨⟨?_, fun n hn => ?_, ?_, fun n hn => ?_, .inl (by rw [hcluster]; exact hend), ?_, ?_, ?_,
    ?_⟩, ?_⟩
  · have hrl := h.rootChain.length_pos
    have := Nat.mul_le_mul hpos hrl
    rw [hspc]
    omega
  · have hn16 : n < 16 := by omega
    rw [Nat.mod_eq_of_lt hn16, hdir hn16 _ (by omega)]
    rcases Nat.lt_or_eq_of_le hn with hlt | rfl
    · rw [withEntry_first_of_ne hlen (Nat.ne_of_lt hlt)]
      exact (hbefore n hlt).1
    · exact withEntry_first hlen (nul_not_mem_formatFatName h0)
  · rw [hmod, slotName_congr (hdir hi) hi, slotName_withEntry_self hlen]
  · have hn16 : n < 16 := by omega
    rw [Nat.mod_eq_of_lt hn16, slotName_congr (hdir hn16) hn16,
      slotName_withEntry_of_ne hlen (Nat.ne_of_lt hn)]
    exact hr.new n hn
  · simpa using hr.valid
  · simp [entry_of_room h hio hr hg hd hr.valid]
  · simpa using h.not_mem_root hr.free
  · rw [hsize, hspc, List.length_singleton]
    omega
  · have htake := @FatState.fileBytes_take _ _ _ hend l.length 512 (Nat.le_refl 512)
    have hdata : s'.disk (s'.clusterToSector c) = dataSector (cString l) l.length := by
      rw [hg, hd]
      exact written_data (hio 0) hr.free (h.sector_ne_root hr.valid (h.not_mem_root hr.free)) (hio 2)
    rw [hdata, dataSector_eq, Nat.min_eq_left hl, bytesAt_cString, bytesAt_toSector _ (by omega),
      bytesAt_put_self, List.take_of_length_le (by simpa [FatState.fileBytes] using hl)] at htake
    rw [FatState.content, hsize, htake]

theorem head?_slotName (dir : Buf) (j : ℕ) : (slotName dir j).head? = some (dir (32 * j)) := by
  simp [slotName, bytesAt, List.range_succ_eq_map]

/-- The free slots are behind the new one, unless the name begins with the mark of a deleted
entry. -/
theorem lt_freeSlot_of_room (h : s.WellFormed count root) (hio : ∀ n, s.io n = true)
    (hr : s.Room count filename c i) (hg : s'.toGeometry = s.toGeometry)
    (hd : s'.disk = s.written filename l) (h0 : (0 : UInt8) ∉ filename)
    (hmark : (formatFatName filename).head? ≠ some 0xE5) {k : ℕ}
    (hk : freeSlot (s'.disk s'.rootSector).buf = some k) : i < k := by
  have hlen := formatFatName_length filename
  obtain ⟨hi, -, hbefore⟩ := freeSlot_eq_some_iff.1 hr.slot
  obtain ⟨hk16, hfree, -⟩ := freeSlot_eq_some_iff.1 hk
  have h' := wellFormed_of_room h hio hr hg hd
  rw [← h'.dirSector_eq hk16, rootSector_of_room h hio hr hg hd hk16 (by omega)] at hfree
  by_contra hle
  rcases Nat.lt_or_eq_of_le (Nat.le_of_not_lt hle) with hlt | rfl
  · rw [withEntry_first_of_ne hlen (Nat.ne_of_lt hlt)] at hfree
    exact hfree.elim (hbefore k hlt).1 (hbefore k hlt).2
  · rcases hfree with hz | he5
    · exact withEntry_first hlen (nul_not_mem_formatFatName h0) hz
    · have hhead := head?_slotName (withEntry (s.disk s.rootSector).buf k (formatFatName filename) c
        l.length) k
      rw [slotName_withEntry_self hlen, he5] at hhead
      exact hmark hhead

/-- **A slot that is used stays as it is**, whatever the write comes to. -/
theorem slot_of_write (h : s.WellFormed count root) (hio : ∀ n, s.io n = true)
    (hvalid : ∀ c, freeCluster (s.disk s.fatStartSector).buf = some c → ValidCluster count c)
    (hg : s'.toGeometry = s.toGeometry) (hd : s'.disk = s.written filename l) {j : ℕ} (hj : j < 16)
    (hused : ∀ i, freeSlot (s.disk s.rootSector).buf = some i → j < i) :
    slotName (s'.disk s'.rootSector).buf j = slotName (s.disk s.rootSector).buf j ∧
      slotSize (s'.disk s'.rootSector).buf j = slotSize (s.disk s.rootSector).buf j := by
  have hlen := formatFatName_length filename
  rw [hg, hd]
  cases hfree : freeCluster (s.disk s.fatStartSector).buf with
  | none => rw [written_of_stuck (.inr hfree)]; exact ⟨rfl, rfl⟩
  | some c =>
      have hv := hvalid c hfree
      have hne := h.sector_ne_root hv (h.not_mem_root hfree)
      have hdir := h.dirBefore_eq hio hfree hv
      rw [written_eq (hio 0) hfree hne, FatState.slotFor, hdir]
      simp only [hio, Bool.and_self, if_true]
      cases hslot : freeSlot (s.disk s.rootSector).buf with
      | none =>
          rw [FatState.dirBefore] at hdir
          simp only [afterData_of_ne hne.symm, hdir, and_self]
      | some i =>
          have hji := Nat.ne_of_lt (hused i hslot)
          simp only [Function.update_self]
          rw [slotName_congr (fun _ hk => buf_toSector hk) hj, slotName_withEntry_of_ne hlen hji,
            slotSize_congr (fun _ hk => buf_toSector hk) hj, slotSize_withEntry_of_ne hlen hji]
          exact ⟨rfl, rfl⟩

/-- **A write that finds no slot leaves the directory.** -/
theorem dirSector_of_no_slot (h : s.WellFormed count root)
    (hvalid : ∀ c, freeCluster (s.disk s.fatStartSector).buf = some c → ValidCluster count c)
    (hio : ∀ n, s.io n = true) (hg : s'.toGeometry = s.toGeometry)
    (hd : s'.disk = s.written filename l)
    (hnone : freeCluster (s.disk s.fatStartSector).buf = none ∨
      freeSlot (s.disk s.rootSector).buf = none) {n : ℕ}
    (hn : n < 16 * (s.sectorsPerCluster * root.length)) :
    s'.dirSector root n = s.dirSector root n := by
  rw [FatState.dirSector, FatState.dirSector, hg, hd]
  cases hfree : freeCluster (s.disk s.fatStartSector).buf with
  | none => rw [written_of_stuck (.inr hfree)]
  | some c =>
      have hv := hvalid c hfree
      have hcroot := h.not_mem_root hfree
      have hq : n / 16 / s.sectorsPerCluster < root.length := by
        rw [Nat.div_lt_iff_lt_mul h.layout.sectorsPerCluster_pos, Nat.mul_comm]
        omega
      have hmem := List.getElem_mem hq
      have hsec := Geometry.chainSector_eq hq
      have hdata : s.chainSector root (n / 16) ≠ s.clusterToSector c := by
        intro heq
        rw [hsec, ← Nat.add_zero (s.clusterToSector c)] at heq
        have := (h.layout.sector_inj (h.root_valid _ hmem) hv
          (Nat.mod_lt _ h.layout.sectorsPerCluster_pos) h.layout.sectorsPerCluster_pos heq).1
        exact hcroot (this ▸ hmem)
      have hfat : s.chainSector root (n / 16) ≠ s.fatStartSector := by
        have := @Geometry.WellFormed.fat_lt _ _ h.layout _ _ (n / 16 % s.sectorsPerCluster) hv
          (h.root_valid _ hmem)
        rw [hsec]
        omega
      have hslot : s.slotFor c = none := by
        rw [FatState.slotFor, h.dirBefore_eq hio hfree hv, hnone.resolve_left (by simp [hfree])]
        simp
      rw [written_eq (hio 0) hfree (h.sector_ne_root hv hcroot), hslot]
      simp only [afterData_of_ne hdata, FatState.afterFat, hio, if_true, Function.update_of_ne hfat]

end

end Fat32
end AiOsExchange
