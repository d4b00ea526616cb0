/-
# A new file is read back

`fs_write_file_content` and then `fs_read_file_content` of `modules/fs/fat32.c`, on a volume with a
free FAT entry in the first FAT sector and a free slot in the first directory sector, under a name
that no slot there has.  The entry found free may lie behind the last cluster, where
`cluster_to_sector` may wrap; its sector is still not that of the root directory.  Both names go
through `format_fat_name`, which does not tell the cases apart.
-/

import AiOsExchange.Fat32.NewFile

namespace AiOsExchange
namespace Fat32

open CMemory

/-! ### The sectors of a write -/

section
variable {s : FatState} {count c i length maxLen : ℕ} {root : List ℕ}
  {filename filename2 : List UInt8} {data buffer : Buf}

/-- The FAT sector is not the root sector. -/
theorem FatState.WellFormed.fat_ne_root (h : s.WellFormed count root) :
    s.fatStartSector ≠ s.rootSector := by
  have hr := h.rootCluster_valid
  have hfirst : ValidCluster count 2 := ⟨Nat.le_refl 2, by
    obtain ⟨hr2, hrn⟩ := hr
    omega⟩
  exact h.fat_ne hr hfirst

/-- **The sector that a write fills is not the root sector**, be its cluster one of the volume or
not. -/
theorem FatState.WellFormed.free_ne_root (h : s.WellFormed count root)
    (hc : freeCluster (s.disk s.fatStartSector).buf = some c) :
    s.clusterToSector c ≠ s.rootSector := by
  have hbounds := freeCluster_bounds hc
  by_cases hv : ValidCluster count c
  · exact h.sector_ne_root hv (h.not_mem_root hc)
  · have hr := h.rootCluster_valid
    have hroot := h.layout.clusterToSector_eq hr
    obtain ⟨hr2, hrn⟩ := hr
    have hcn : count + 2 ≤ c := by
      by_contra hlt
      exact hv ⟨hbounds.1, by omega⟩
    have hle := h.layout.clusters_le
    have hpos := h.layout.sectorsPerCluster_pos
    have hlast : (s.rootDirCluster - 2 + 1) * s.sectorsPerCluster ≤ count * s.sectorsPerCluster :=
      Nat.mul_le_mul_right _ (by omega)
    have hsplit : (c - 2) * s.sectorsPerCluster =
        (s.rootDirCluster - 2) * s.sectorsPerCluster +
          (c - s.rootDirCluster) * s.sectorsPerCluster := by
      rw [← Nat.add_mul]
      congr 1
      omega
    have hgap : (c - s.rootDirCluster) * s.sectorsPerCluster ≤ 128 * 256 :=
      Nat.mul_le_mul (by omega) (Nat.le_of_lt h.layout.sectorsPerCluster_lt)
    have hgap_pos : 0 < (c - s.rootDirCluster) * s.sectorsPerCluster :=
      Nat.mul_pos (by omega) hpos
    have hoff : (c + (2 ^ 32 - 2)) % 2 ^ 32 = c - 2 := by omega
    have hsec : s.clusterToSector c =
        (s.dataStartSector + (c - 2) * s.sectorsPerCluster) % 2 ^ 32 := by
      simp only [Geometry.clusterToSector, hoff]
      rfl
    rw [Nat.add_mul, Nat.one_mul] at hlast
    rw [Geometry.rootSector, hroot, hsec, hsplit]
    omega

theorem FatState.WellFormed.dirBefore_root (h : s.WellFormed count root) (c : ℕ) :
    s.dirBefore c = (s.disk s.rootSector).buf := by
  rw [FatState.dirBefore, FatState.afterFat]
  split_ifs
  · rw [Function.update_of_ne h.fat_ne_root.symm]
  · rfl

/-! ### Reading it back -/

/-- The data sector of a file has its data. -/
theorem bytesAt_dataSector (data : Buf) (hl : length ≤ 512) :
    bytesAt (dataSector data length).buf 0 length = bytesAt data 0 length := by
  have hself := bytesAt_put_self (fun _ => 0) 0 (bytesAt data 0 length)
  rw [bytesAt_length] at hself
  rw [dataSector_eq, Nat.min_eq_left hl, bytesAt_toSector _ (by omega), hself]

/-- The name leads to the new entry. -/
theorem lookup_written (h : s.WellFormed count root) (hio : ∀ n, s.io n = true)
    (hc : freeCluster (s.disk s.fatStartSector).buf = some c)
    (hi : freeSlot (s.disk s.rootSector).buf = some i) (h0 : (0 : UInt8) ∉ filename)
    (hnew : ∀ j < 16, slotName (s.disk s.rootSector).buf j ≠ formatFatName filename)
    {l : List UInt8} (hl : l.length < 2 ^ 32) :
    readTarget (s.written filename l s.rootSector).buf (formatFatName filename) =
      (c, l.length) := by
  have hlen := formatFatName_length filename
  have hbounds := freeCluster_bounds hc
  have hslot := (freeSlot_eq_some_iff.1 hi).1
  rw [readTarget_written (hio 0) hc (h.free_ne_root hc), FatState.slotFor, h.dirBefore_root, hi]
  simp only [hio, Bool.and_self, if_true]
  rw [readTarget_of_readSlot (readSlot_withEntry hlen (nul_not_mem_formatFatName h0) hi
    fun j hj => hnew j (by omega)), slotCluster_withEntry_self hlen (by omega : c < 2 ^ 16),
    slotSize_withEntry_self hlen hl]

/-- **A new file is read back as it was written**, whatever else the FAT and the directory hold. -/
theorem new_file_read_back (h : s.WellFormed count root) (hio : ∀ n, s.io n = true)
    (h0 : (0 : UInt8) ∉ filename)
    (hnew : ∀ j < 16, slotName (s.disk s.rootSector).buf j ≠ formatFatName filename)
    (hcluster : ∃ c, 2 ≤ c ∧ c < 128 ∧ fatEntry (s.disk s.fatStartSector).buf c = 0)
    (hslot : ∃ i < 16, (s.disk s.rootSector).buf (32 * i) = 0 ∨
      (s.disk s.rootSector).buf (32 * i) = 0xE5)
    (hl : length ≤ 512) (hmax : length < maxLen)
    (hcase : filename2.map upper = filename.map upper) :
    (fsReadFileContent filename2 buffer maxLen (fsWriteFileContent filename data length s)).1 =
      put buffer 0 (bytesAt data 0 length ++ [0]) := by
  obtain ⟨c, hc⟩ : ∃ c, freeCluster (s.disk s.fatStartSector).buf = some c := by
    obtain ⟨c, hc2, hc128, hfree⟩ := hcluster
    exact Option.isSome_iff_exists.1 (List.find?_isSome.2
      ⟨c, List.mem_range'_1.2 ⟨hc2, by omega⟩, by simpa using hfree⟩)
  obtain ⟨i, hi⟩ : ∃ i, freeSlot (s.disk s.rootSector).buf = some i := by
    obtain ⟨i, hi16, hfree⟩ := hslot
    exact Option.isSome_iff_exists.1 (List.find?_isSome.2
      ⟨i, List.mem_range.2 hi16, by simpa using hfree⟩)
  have hlen : (bytesAt data 0 length).length = length := bytesAt_length data 0 length
  have hlater := @write_later filename data length s
  have hdisk := @disk_write_eq_written s filename (bytesAt data 0 length) data (by rw [hlen])
  rw [hlen] at hdisk
  have hlookup : (fsWriteFileContent filename data length s).lookup filename2 = (c, length) := by
    have hread := lookup_written h hio hc hi h0 hnew (l := bytesAt data 0 length) (by omega)
    rw [FatState.lookup, hlater.geometry, hdisk, formatFatName_congr hcase, hread, hlen]
  have hbounds := freeCluster_bounds hc
  have hio' := hlater.io_true hio
  have hdata := @written_data s filename (bytesAt data 0 length) c (hio 0) hc (h.free_ne_root hc)
    (hio 2)
  rw [read_of_found (hio' 0) (by rw [hlookup]; simp only; omega) (hio' 1), hlookup, hdisk,
    hlater.geometry]
  simp only
  have htext := bytesAt_cString (bytesAt data 0 length)
  rw [hlen] at htext
  rw [hdata, hlen, Nat.min_eq_left (by omega : length ≤ maxLen - 1), bytesAt_load _ _ (by omega),
    bytesAt_dataSector _ hl, htext]

/-- The directory of the volume with one file. -/
theorem oneFileVolume_rootSector_buf {content : List UInt8} {k : ℕ} (hk : k < 512) :
    ((oneFileVolume filename content).disk (oneFileVolume filename content).rootSector).buf k =
      oneFileDir filename content k := by
  rw [← oneFileVolume_wellFormed.dirSector_eq (show 0 < 16 by decide), oneFileVolume_dirSector hk]

/-- The file `b` next to `A`, read as `B`. -/
theorem second_file_read_back :
    (fsReadFileContent [66] (fun _ => 0) 100
      (fsWriteFileContent [98] (cString [7, 8]) 2 (oneFileVolume [65] [1]))).1 =
      put (fun _ => 0) 0 [7, 8, 0] := by
  refine new_file_read_back oneFileVolume_wellFormed (fun _ => rfl) (by decide) (fun j hj => ?_)
    ⟨4, by decide, by decide, by decide⟩
    ⟨1, by decide, .inl (by rw [oneFileVolume_rootSector_buf (by decide)]; decide)⟩
    (by decide) (by decide) (by decide)
  intro hname
  have hfirst := head?_slotName ((oneFileVolume [65] [1]).disk
    (oneFileVolume [65] [1]).rootSector).buf j
  rw [hname, oneFileVolume_rootSector_buf (by omega)] at hfirst
  have hother : ∀ j < 16, oneFileDir [65] [1] (32 * j) ≠ 66 := by decide
  exact hother j hj (Option.some.inj hfirst).symm

end

end Fat32
end AiOsExchange
