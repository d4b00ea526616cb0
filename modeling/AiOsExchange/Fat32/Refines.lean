/-
# The volume does as its store

The operations of `modules/fs/fat32.c` on a volume whose root directory is in order, with a block
device that does not fail, do what those of the store do that the volume stands for, and show what
they show (`fs_refines`).  So a run of requests shows on every such volume what it shows on the
store (`fs_answers`), whatever the geometry, the buffers and the other clusters of the volume are.

| request | on the volume | on the store |
| --- | --- | --- |
| write | a FAT entry, a data sector, a slot | the first free place is taken |
| append | one data sector, the size in a slot | the first file of the name is changed |
| read, list | nothing | nothing |
-/

import AiOsExchange.Fat32.Intact
import AiOsExchange.Fat32.Listed
import AiOsExchange.Fat32.Places
import AiOsExchange.Fat32.Walk

namespace AiOsExchange
namespace Fat32

open CMemory Chains Runs Firsts

/-- The block of a new file. -/
theorem dataSector_apply (data : Buf) (length : ℕ) :
    dataSector data length = fun k : Fin 512 => if (k : ℕ) < length then data k else 0 := by
  funext k
  have hk := k.isLt
  rw [dataSector_eq, toSector]
  split_ifs with hlt
  · rw [put_apply_zero (by rw [bytesAt_length]; omega)]
    simp [bytesAt]
  · exact put_of_ge (by rw [bytesAt_length]; omega)

/-- A block that bytes are put in. -/
theorem sector_put_apply (sec : Sector) (o n : ℕ) (data : Buf) :
    sec.put o (bytesAt data 0 n) =
      fun k : Fin 512 => if o ≤ k ∧ (k : ℕ) < o + n then data (k - o) else sec k := by
  funext k
  have hsec : sec.buf k = sec k := Sector.buf_of_lt k.isLt
  rw [Sector.put, toSector]
  split_ifs with hin
  · obtain ⟨r, hr⟩ := Nat.exists_eq_add_of_le hin.1
    rw [hr, put_apply (by rw [bytesAt_length]; omega), Nat.add_sub_cancel_left]
    simp [bytesAt]
  · rcases Nat.lt_or_ge k o with hlt | hge
    · rw [put_of_lt hlt, hsec]
    · rw [put_of_ge (by rw [bytesAt_length]; omega), hsec]

namespace FatState

section
variable {s s' : FatState} {i c count length : ℕ} {root : List ℕ} {filename : List UInt8}
  {data : Buf}

/-! ### Writes -/

/-- A state with the same volume and disk stands for the same store. -/
theorem asStore_congr (hg : s'.toGeometry = s.toGeometry) (hd : s'.disk = s.disk) :
    s'.asStore = s.asStore := by
  have hentry (c : ℕ) : s'.entry c = s.entry c := by rw [entry, entry, hg, hd]
  have hdir : s'.rootDir = s.rootDir := by rw [rootDir, rootDir, hg, hd]
  have hplace (i : ℕ) : s'.place i = s.place i := by
    refine (sameSlot_of_bytes (fun k _ => by rw [hdir]) fun _ _ _ => hentry _).place_eq fun _ => ?_
    rw [fileIn, fileIn, slotStart, slotStart, hdir, hd, hg]
  rw [asStore, asStore, funext hplace, freeClusters, freeClusters]
  simp only [hentry]

/-- and is as much in order. -/
theorem Orderly.congr (h : s.Orderly count root) (hlater : s.Later s') (hd : s'.disk = s.disk) :
    s'.Orderly count root := by
  have hentry (c : ℕ) : s'.entry c = s.entry c := by rw [entry, entry, hlater.geometry, hd]
  have hdir : s'.rootDir = s.rootDir := by rw [rootDir, rootDir, hlater.geometry, hd]
  exact h.step hlater (fun c _ _ => hentry c) fun i _ =>
    .inl (sameSlot_of_bytes (fun k _ => by rw [hdir]) fun _ _ _ => hentry _)

theorem Orderly.valid (h : s.Orderly count root) (h2 : 2 ≤ c) (h128 : c < 128) :
    ValidCluster count c := ⟨h2, by have := h.enough; omega⟩

/-- The free clusters are those a write looks for. -/
theorem mem_freeClusters : c ∈ s.freeClusters ↔ c < 128 ∧ 2 ≤ c ∧ s.entry c = 0 := by
  rw [freeClusters, Finset.mem_filter, Finset.mem_range]

theorem freeClusters_of_none (h : freeCluster (s.disk s.fatStartSector).buf = none) :
    s.freeClusters.card = 0 := by
  rw [Finset.card_eq_zero, Finset.eq_empty_iff_forall_notMem]
  intro c hc
  obtain ⟨hlt, h2, h0⟩ := mem_freeClusters.1 hc
  rw [entry, Nat.div_eq_of_lt hlt, Nat.mod_eq_of_lt hlt, Nat.add_zero] at h0
  have hmem : c ∈ List.range' 2 126 := List.mem_range'.2 ⟨c - 2, by omega, by omega⟩
  have := List.find?_eq_none.1 h c hmem
  exact this (decide_eq_true h0)

theorem mem_freeClusters_of_some (h : freeCluster (s.disk s.fatStartSector).buf = some c) :
    c ∈ s.freeClusters := by
  obtain ⟨h2, hlt⟩ := freeCluster_bounds h
  exact mem_freeClusters.2 ⟨hlt, h2, entry_of_freeCluster h⟩

section
variable (h : s.Orderly count root) (hc : freeCluster (s.disk s.fatStartSector).buf = some c)
include h hc

/-- The FAT after a write. -/
theorem Orderly.entry_write {c' : ℕ} (hv : ValidCluster count c') :
    (fsWriteFileContent filename data length s).entry c' =
      if c' = c then 0x0FFFFFFF else s.entry c' :=
  Fat32.entry_write h.volume h.io hc
    (h.valid (freeCluster_bounds hc).1 (freeCluster_bounds hc).2) hv

/-- The entries that are taken stay. -/
theorem Orderly.entry_write_of_taken {c' : ℕ} (hv : ValidCluster count c') (ht : s.entry c' ≠ 0) :
    (fsWriteFileContent filename data length s).entry c' = s.entry c' := by
  have hne : c' ≠ c := fun heq => ht (heq ▸ entry_of_freeCluster hc)
  rw [h.entry_write hc hv, if_neg hne]

/-- The root directory after a write. -/
theorem Orderly.rootDir_write {k : ℕ} (hk : k < 512) :
    (fsWriteFileContent filename data length s).rootDir k =
      match freeSlot s.rootDir with
      | some i => withEntry s.rootDir i (formatFatName filename) c length k
      | none => s.rootDir k := by
  have hroot := @disk_write_root s count c root filename data length h.volume (h.io 0) hc
    (h.valid (freeCluster_bounds hc).1 (freeCluster_bounds hc).2)
  simp only [h.io, Bool.and_self, if_true] at hroot
  rw [rootDir, (write_later s).geometry, hroot, rootDir]
  cases freeSlot (s.disk s.rootSector).buf with
  | none => rfl
  | some i => exact buf_toSector hk

/-- A slot that is not filled. -/
theorem Orderly.sameSlot_write (hi : i < 16) (hne : freeSlot s.rootDir ≠ some i) :
    s.SameSlot (fsWriteFileContent filename data length s) i := by
  refine sameSlot_of_bytes (fun k hk => ?_) fun hf h2 h128 =>
    h.entry_write_of_taken hc (h.valid h2 h128) (h.taken i hi hf h2 h128)
  rw [h.rootDir_write hc (by omega)]
  cases hslot : freeSlot s.rootDir with
  | none => rfl
  | some n =>
      exact withEntry_of_ne (formatFatName_length filename) (fun heq => hne (heq ▸ hslot)) (by omega)

/-- **The slot that is filled** has the new file. -/
theorem Orderly.filled_write (hname : ProperName filename) (hlen : length < 2 ^ 32)
    (hslot : freeSlot s.rootDir = some i) :
    s.Filled (fsWriteFileContent filename data length s) root i ∧
      (fsWriteFileContent filename data length s).fileIn i =
        .create (formatFatName filename) data length := by
  obtain ⟨h2, h128⟩ := freeCluster_bounds hc
  have hv := h.valid h2 h128
  have hlt := (freeSlot_eq_some_iff.1 hslot).1
  have hlen11 := formatFatName_length filename
  have hdir {k : ℕ} (hk : k < 512) : (fsWriteFileContent filename data length s).rootDir k =
      withEntry s.rootDir i (formatFatName filename) c length k := by
    rw [h.rootDir_write hc hk, hslot]
  have hstart : (fsWriteFileContent filename data length s).slotStart i = c := by
    rw [slotStart, slotCluster_congr (fun _ => hdir) hlt, slotCluster_withEntry_self hlen11 (by omega)]
  have hentry : (fsWriteFileContent filename data length s).entry c = 0x0FFFFFFF := by
    rw [h.entry_write hc hv, if_pos rfl]
  have hhead := @head?_withEntry s.rootDir i c length _ hlen11
  refine ⟨⟨hslot, ⟨⟨⟨?_, fun hmark => hname.mark ?_⟩, ?_⟩, by rw [hstart]; exact ⟨h2, h128⟩, ?_⟩, ?_, ?_⟩,
    ?_⟩
  · rw [hdir (by omega)]
    exact withEntry_first hlen11 (nul_not_mem_formatFatName hname.nul)
  · rw [hhead, ← hdir (by omega), hmark]
  · rw [hdir (by omega), attr_withEntry hlen11]
    decide
  · rw [hstart, hentry]
    decide
  · rw [hstart]
    exact entry_of_freeCluster hc
  · rw [hstart]
    exact h.volume.not_mem_root hc
  · have hdata : (fsWriteFileContent filename data length s).disk
        ((fsWriteFileContent filename data length s).clusterToSector c) =
        dataSector data length := by
      rw [(write_later s).geometry, disk_write_data h.volume (h.io 0) hc hv, if_pos (h.io 2)]
    rw [fileIn, hstart, hdata, slotName_congr (fun _ => hdir) hlt, slotName_withEntry_self hlen11,
      slotSize_congr (fun _ => hdir) hlt, slotSize_withEntry_self hlen11 hlen, StoredFile.create,
      dataSector_apply]

/-- **What a write does to the slots.** -/
theorem Orderly.slot_write (hname : ProperName filename) (hlen : length < 2 ^ 32) (hi : i < 16) :
    s.SameSlot (fsWriteFileContent filename data length s) i ∨
      s.Filled (fsWriteFileContent filename data length s) root i := by
  by_cases hslot : freeSlot s.rootDir = some i
  · exact .inr (h.filled_write hc hname hlen hslot).1
  · exact .inl (h.sameSlot_write hc hi hslot)

/-- The places after a write. -/
theorem Orderly.place_write (hname : ProperName filename) (hlen : length < 2 ^ 32) (hi : i < 16) :
    (fsWriteFileContent filename data length s).place i =
      if freeSlot s.rootDir = some i then .file (.create (formatFatName filename) data length)
      else s.place i := by
  split_ifs with hslot
  · obtain ⟨hfilled, hfile⟩ := h.filled_write hc hname hlen hslot
    rw [place_of_single hfilled.single, hfile]
  · have hsame := @Orderly.sameSlot_write s i c count length root filename data h hc hi hslot
    refine hsame.place_eq fun hs => ?_
    obtain ⟨h2, h128⟩ := hs.low
    have hv := h.valid h2 h128
    have hvc := h.valid (freeCluster_bounds hc).1 (freeCluster_bounds hc).2
    have hne : s.slotStart i ≠ c := fun heq =>
      h.taken i hi hs.file h2 h128 (heq ▸ entry_of_freeCluster hc)
    have hpos := h.volume.layout.sectorsPerCluster_pos
    have hfat := h.volume.fat_ne hv hvc
    rw [Nat.div_eq_of_lt (freeCluster_bounds hc).2, Nat.add_zero] at hfat
    have hdisk : (fsWriteFileContent filename data length s).disk
        (s.clusterToSector (s.slotStart i)) = s.disk (s.clusterToSector (s.slotStart i)) := by
      have hinj := @Geometry.WellFormed.sector_inj _ _ h.volume.layout _ _ 0 0 hv hvc hpos hpos
      rw [Nat.add_zero, Nat.add_zero] at hinj
      exact disk_write_other (h.io 0) hc hfat.symm (fun heq => hne (hinj heq).1)
        (h.volume.sector_ne_root hv (h.own i hi hs))
    have hbytes {k : ℕ} (hk : k < 32) :
        (fsWriteFileContent filename data length s).rootDir (32 * i + k) = s.rootDir (32 * i + k) := by
      rw [h.rootDir_write hc (by omega)]
      cases hfree : freeSlot s.rootDir with
      | none => rfl
      | some n =>
          exact withEntry_of_ne (formatFatName_length filename) (fun heq => hslot (heq ▸ hfree)) hk
    have hsize : slotSize (fsWriteFileContent filename data length s).rootDir i =
        slotSize s.rootDir i := by
      rw [slotSize, slotSize, u32, u32,
        bytesAt_congr fun k hk => by rw [Nat.add_assoc, hbytes (by omega)]]
    rw [fileIn, fileIn, hsame.name, hsame.start, hsize, (write_later s).geometry, hdisk]

/-- The free clusters after a write. -/
theorem Orderly.freeClusters_write :
    (fsWriteFileContent filename data length s).freeClusters = s.freeClusters.erase c := by
  ext c'
  rw [Finset.mem_erase, mem_freeClusters, mem_freeClusters]
  by_cases hlow : c' < 128 ∧ 2 ≤ c'
  · rw [h.entry_write hc (h.valid hlow.2 hlow.1)]
    split_ifs with heq
    · exact iff_of_false (fun hz => absurd hz.2.2 (by decide)) fun hz => hz.1 heq
    · simp [heq]
  · exact iff_of_false (fun hz => hlow ⟨hz.1, hz.2.1⟩) fun hz => hlow ⟨hz.2.1, hz.2.2.1⟩

end

/-- **A write keeps the root directory in order**, -/
theorem Orderly.write (h : s.Orderly count root) (hname : ProperName filename)
    (hlen : length < 2 ^ 32) : (fsWriteFileContent filename data length s).Orderly count root := by
  cases hc : freeCluster (s.disk s.fatStartSector).buf with
  | none => exact h.congr (write_later s) (disk_write_of_stuck (.inr hc))
  | some c =>
      exact h.step (write_later s) (fun c' hv ht => h.entry_write_of_taken hc hv ht) fun i hi =>
        h.slot_write hc hname hlen hi

/-- **and does what it does to the store.** -/
theorem Orderly.asStore_write (h : s.Orderly count root) (hname : ProperName filename)
    (hlen : length < 2 ^ 32) : (fsWriteFileContent filename data length s).asStore =
      s.asStore.write (formatFatName filename) data length := by
  cases hc : freeCluster (s.disk s.fatStartSector).buf with
  | none =>
      have hzero : s.asStore.clusters = 0 := freeClusters_of_none hc
      rw [Store.write, if_pos hzero,
        asStore_congr (write_later s).geometry (disk_write_of_stuck (.inr hc))]
  | some c =>
      have hmem := mem_freeClusters_of_some hc
      have hpos : s.asStore.clusters ≠ 0 := Finset.card_ne_zero_of_mem hmem
      have hplaces : (List.range 16).map (fsWriteFileContent filename data length s).place =
          changeFirst Place.isFree (fun _ => .file (.create (formatFatName filename) data length))
            ((List.range 16).map s.place) := by
        rw [changeFirst_map _ List.nodup_range, find?_isFree]
        exact List.map_congr_left fun i hi => h.place_write hc hname hlen (List.mem_range.1 hi)
      have hclusters : (fsWriteFileContent filename data length s).freeClusters.card =
          s.freeClusters.card - 1 := by
        rw [h.freeClusters_write hc, Finset.card_erase_of_mem hmem]
      rw [Store.write, if_neg hpos, asStore, asStore, hplaces, hclusters]

/-! ### Appends -/

theorem ofLE_toLE_mod (w n : ℕ) : ofLE (toLE w n) = n % 256 ^ w := by
  induction w generalizing n with
  | zero => simp [toLE, ofLE, Nat.mod_one]
  | succ w ih =>
      have hmod : (UInt8.ofNat (n % 256)).toNat = n % 256 := by
        rw [UInt8.toNat_ofNat']
        exact Nat.mod_eq_of_lt (by simpa using Nat.mod_lt n (by decide))
      rw [toLE, ofLE, ih, hmod, Nat.pow_succ, Nat.mul_comm (256 ^ w), Nat.mod_mul]

/-- The size that is put in an entry counts in 32 bits. -/
theorem slotSize_resized_mod (dir : Buf) (i v : ℕ) :
    slotSize (Appendable.resized dir i v) i = v % 2 ^ 32 := by
  have hself : bytesAt (Appendable.resized dir i v) (32 * i + 28) 4 = toLE 4 v := by
    have := bytesAt_put_self dir (32 * i + 28) (toLE 4 v)
    rwa [toLE_length] at this
  rw [slotSize, u32, hself, ofLE_toLE_mod]
  rfl

/-- The bytes of a slot that a new size in slot `i` leaves. -/
theorem resized_apply {dir : Buf} {v j k : ℕ} (hk : k < 32) (h : j ≠ i ∨ k < 28) :
    Appendable.resized dir i v (32 * j + k) = dir (32 * j + k) := by
  rcases Nat.lt_or_ge (32 * j + k) (32 * i + 28) with hlt | hge
  · exact put_of_lt hlt
  · exact put_of_ge (by rw [toLE_length]; omega)

/-- The disk with `n` bytes behind the end of the file in slot `i`: its sector, and the directory
with the new size. -/
def grownDisk (s : FatState) (i n : ℕ) (data : Buf) : ℕ → Sector :=
  Function.update
    (Function.update s.disk (s.clusterToSector (s.slotStart i))
      ((s.disk (s.clusterToSector (s.slotStart i))).put (slotSize s.rootDir i % 512)
        (bytesAt data 0 n)))
    s.rootSector (toSector (Appendable.resized s.rootDir i (slotSize s.rootDir i + n)))

section
variable (h : s.Orderly count root) (hs : s.Single i)
include h hs

/-- **The disk after an append** to the file in slot `i`. -/
theorem Orderly.append_disk (data : Buf) (length : ℕ) {fuel : ℕ} (hfuel : 0 < fuel)
    (hslot : appendSlot s.rootDir (formatFatName filename) = some i) :
    ∃ s', fsAppendFileContent fuel filename data length s = some s' ∧ s.Later s' ∧
      s'.disk = s.grownDisk i (s.copied i length) data := by
  have hi := (appendSlot_eq_some_iff.1 hslot).1
  have hroot := h.volume.sector_ne_root (h.valid hs.low.1 hs.low.2) (h.own i hi hs)
  obtain ⟨fuel, rfl⟩ : ∃ n, fuel = n + 1 := ⟨fuel - 1, by omega⟩
  have hend : loadedNext s.loadedFat (s.slotStart i) = none := by
    rw [loadedNext_eq s hs.low.2, FatState.next, if_neg fun hlink => ?_]
    have := hs.last
    omega
  obtain ⟨s', happend, hdisk⟩ :=
    append_of_stopped data length (h.io 0) (h.io 1) hslot (@fatWalk_none _ _ fuel _ _ hend)
  have hlater := @append_later s (fuel + 1) length filename data
  rw [happend, Option.getD_some] at hlater
  refine ⟨s', happend, hlater, ?_⟩
  have hstore : s.afterStore i (s.slotStart i) data length s.rootSector = s.disk s.rootSector :=
    afterStore_of_ne i data length hroot.symm
  have hdisk : s'.disk = s.appendDisk i (s.slotStart i) data length := hdisk
  rw [hdisk, appendDisk]
  simp only [h.io, if_true, Bool.and_self, hstore]
  rw [afterStore, if_pos (h.io 3)]
  rfl

variable {n : ℕ} (hlater : s.Later s') (hdisk : s'.disk = s.grownDisk i n data)
include hlater hdisk

omit h hs in
/-- The bytes of the directory. -/
theorem rootDir_grown {k : ℕ} (hk : k < 512) :
    s'.rootDir k = Appendable.resized s.rootDir i (slotSize s.rootDir i + n) k := by
  rw [rootDir, hlater.geometry, hdisk, grownDisk, Function.update_self, buf_toSector hk]

/-- No entry of the FAT changes, -/
theorem Orderly.entry_grown (hv : ValidCluster count c) : s'.entry c = s.entry c := by
  have hfat : s.fatStartSector + c / 128 ≠ s.rootSector :=
    h.volume.fat_ne h.volume.rootCluster_valid hv
  rw [entry, entry, hlater.geometry, hdisk, grownDisk, Function.update_of_ne hfat,
    Function.update_of_ne (h.volume.fat_ne (h.valid hs.low.1 hs.low.2) hv)]

/-- and the slots stay. -/
theorem Orderly.slot_grown {j : ℕ} (hj : j < 16) : s.SameSlot s' j := by
  refine sameSlot_of_bytes (fun k hk => ?_) fun _ h2 h128 =>
    h.entry_grown hs hlater hdisk (h.valid h2 h128)
  rw [rootDir_grown hlater hdisk (by omega), resized_apply (by omega) (.inr hk)]

/-- No cluster is taken. -/
theorem Orderly.freeClusters_grown : s'.freeClusters = s.freeClusters := by
  ext c
  rw [mem_freeClusters, mem_freeClusters]
  by_cases hlow : c < 128 ∧ 2 ≤ c
  · rw [h.entry_grown hs hlater hdisk (h.valid hlow.2 hlow.1)]
  · exact iff_of_false (fun hz => hlow ⟨hz.1, hz.2.1⟩) fun hz => hlow ⟨hz.1, hz.2.1⟩

variable (hi : i < 16)
include hi

/-- The file itself. -/
theorem Orderly.fileIn_grown : s'.fileIn i =
    { name := slotName s.rootDir i
      size := (slotSize s.rootDir i + n) % 2 ^ 32
      block := (s.disk (s.clusterToSector (s.slotStart i))).put (slotSize s.rootDir i % 512)
        (bytesAt data 0 n) } := by
  have hroot := h.volume.sector_ne_root (h.valid hs.low.1 hs.low.2) (h.own i hi hs)
  have hsame := h.slot_grown hs hlater hdisk hi
  have hsize : slotSize s'.rootDir i = (slotSize s.rootDir i + n) % 2 ^ 32 := by
    rw [slotSize_congr (fun _ => rootDir_grown hlater hdisk) hi, slotSize_resized_mod]
  have hblock : s'.disk (s'.clusterToSector (s.slotStart i)) =
      (s.disk (s.clusterToSector (s.slotStart i))).put (slotSize s.rootDir i % 512)
        (bytesAt data 0 n) := by
    rw [hlater.geometry, hdisk, grownDisk, Function.update_of_ne hroot, Function.update_self]
  rw [fileIn, hsame.name, hsame.start, hsize, hblock]

/-- The other files. -/
theorem Orderly.fileIn_grown_of_ne {j : ℕ} (hj : j < 16) (hsj : s.Single j) (hji : j ≠ i) :
    s'.fileIn j = s.fileIn j := by
  have hsame := h.slot_grown hs hlater hdisk hj
  have hv := h.valid hs.low.1 hs.low.2
  have hvj := h.valid hsj.low.1 hsj.low.2
  have hpos := h.volume.layout.sectorsPerCluster_pos
  have hinj := @Geometry.WellFormed.sector_inj _ _ h.volume.layout _ _ 0 0 hvj hv hpos hpos
  rw [Nat.add_zero, Nat.add_zero] at hinj
  have hblock : s'.disk (s'.clusterToSector (s.slotStart j)) =
      s.disk (s.clusterToSector (s.slotStart j)) := by
    rw [hlater.geometry, hdisk, grownDisk,
      Function.update_of_ne (h.volume.sector_ne_root hvj (h.own j hj hsj)),
      Function.update_of_ne fun heq => hji (h.apart j hj i hi hsj hs (hinj heq).1)]
  have hsize : slotSize s'.rootDir j = slotSize s.rootDir j := by
    rw [slotSize_congr (fun _ => rootDir_grown hlater hdisk) hj,
      slotSize_resized_of_ne (Ne.symm hji)]
  rw [fileIn, fileIn, hsame.name, hsame.start, hsize, hblock]

end

/-- **An append to a file** keeps the root directory in order, and does what it does to the store. -/
theorem Orderly.append_file (h : s.Orderly count root) (data : Buf) (length : ℕ) {fuel : ℕ}
    (hfuel : 0 < fuel) (hslot : appendSlot s.rootDir (formatFatName filename) = some i)
    (hs : s.Single i) :
    ∃ s', fsAppendFileContent fuel filename data length s = some s' ∧ s'.Orderly count root ∧
      s'.freeClusters = s.freeClusters ∧
      ∀ j < 16, s'.place j = if j = i then (s.place i).extend data length else s.place j := by
  have hi := (appendSlot_eq_some_iff.1 hslot).1
  obtain ⟨s', happend, hlater, hdisk⟩ := h.append_disk hs data length hfuel hslot
  have hsame {j : ℕ} (hj : j < 16) := h.slot_grown hs hlater hdisk hj
  refine ⟨s', happend, h.step hlater (fun c hv _ => h.entry_grown hs hlater hdisk hv)
    fun j hj => .inl (hsame hj), h.freeClusters_grown hs hlater hdisk, fun j hj => ?_⟩
  split_ifs with hji
  · subst hji
    rw [place_of_single hs, place_of_single ((hsame hj).single.2 hs),
      h.fileIn_grown hs hlater hdisk hi, sector_put_apply]
    rfl
  · exact (hsame hj).place_eq fun hsj => h.fileIn_grown_of_ne hs hlater hdisk hi hj hsj hji

/-- A name that does not lead elsewhere leads to a file of one cluster. -/
theorem single_of_appendSlot (hname : ProperName filename)
    (hown : ¬ s.asStore.Foreign (formatFatName filename))
    (hslot : appendSlot s.rootDir (formatFatName filename) = some i) : s.Single i := by
  have hfind := @asStore_find s _ (nul_not_mem_formatFatName hname.nul) hname.mark
  rw [hslot, Option.map_some] at hfind
  by_contra hs
  refine hown ?_
  have hnamed := (place_hasName_iff (nul_not_mem_formatFatName hname.nul) hname.mark).2
    (appendSlot_eq_some_iff.1 hslot).2.1
  have hu : s.Used i := by
    by_contra hu
    rw [place_of_not_used hu] at hnamed
    cases hnamed
  rw [Store.Foreign, hfind, place, if_neg hs, if_pos hu]
  rfl

/-- **An append** keeps the root directory in order, and does what it does to the store. -/
theorem Orderly.append (h : s.Orderly count root) (data : Buf) {fuel : ℕ} (hfuel : 0 < fuel)
    (hname : ProperName filename) (hlen : length < 2 ^ 32)
    (hown : ¬ s.asStore.Foreign (formatFatName filename)) :
    ∃ s', fsAppendFileContent fuel filename data length s = some s' ∧ s'.Orderly count root ∧
      s'.asStore = s.asStore.append (formatFatName filename) data length := by
  have hfind := @asStore_find s _ (nul_not_mem_formatFatName hname.nul) hname.mark
  cases hslot : appendSlot s.rootDir (formatFatName filename) with
  | none =>
      rw [hslot, Option.map_none] at hfind
      have hread := s.readDisk_true s.rootSector (h.io 0)
      have hlater := s.readDisk_later s.rootSector
      have hdisk : (s.readDisk s.rootSector).2.disk = s.disk := by rw [hread]
      have happend : fsAppendFileContent fuel filename data length s =
          some (fsWriteFileContent filename data length (s.readDisk s.rootSector).2) := by
        rw [fsAppendFileContent, hread]
        simp only [appendSlot_load]
        rw [show appendSlot (s.disk s.rootSector).buf (formatFatName filename) = none from hslot]
      have hread' := h.congr hlater hdisk
      refine ⟨_, happend, hread'.write hname hlen, ?_⟩
      rw [hread'.asStore_write hname hlen, asStore_congr hlater.geometry hdisk, Store.append, hfind]
  | some i =>
      rw [hslot, Option.map_some] at hfind
      have hs := single_of_appendSlot hname hown hslot
      obtain ⟨s', happend, horder, hclusters, hplace⟩ :=
        h.append_file data length hfuel hslot hs
      refine ⟨s', happend, horder, ?_⟩
      have hplaces : (List.range 16).map s'.place =
          changeFirst (Place.hasName (formatFatName filename)) (Place.extend data length)
            ((List.range 16).map s.place) := by
        rw [changeFirst_map _ List.nodup_range,
          find?_hasName (nul_not_mem_formatFatName hname.nul) hname.mark, hslot]
        refine List.map_congr_left fun j hj => ?_
        rw [hplace j (List.mem_range.1 hj)]
        by_cases hji : j = i
        · rw [if_pos hji, if_pos (by rw [hji]), hji]
        · rw [if_neg hji, if_neg fun heq => hji (Option.some.inj heq).symm]
      rw [Store.append, hfind, asStore, hclusters, hplaces]
      rfl

/-! ### Reads -/

/-- The bytes of a sector. -/
theorem bytesAt_sector (sec : Sector) {n : ℕ} (hn : n ≤ 512) :
    bytesAt sec.buf 0 n = (List.ofFn sec).take n := by
  apply List.ext_getElem
  · rw [bytesAt_length, List.length_take, List.length_ofFn, Nat.min_eq_left hn]
  · intro k hk _
    rw [bytesAt_length] at hk
    simp only [bytesAt, List.getElem_map, List.getElem_range, List.getElem_take, List.getElem_ofFn,
      Nat.zero_add]
    exact Sector.buf_of_lt (by omega)

/-- **A read shows what it shows of the store**, at most a sector of it. -/
theorem Orderly.read (h : s.Orderly count root) (hname : ProperName filename)
    (hown : ¬ s.asStore.Foreign (formatFatName filename)) {m maxLen : ℕ} (h16 : 16 < maxLen)
    (hmax : m < maxLen) (h512 : m ≤ 512) (buffer : Buf) :
    text (fsReadFileContent filename buffer maxLen s).1 m =
      s.asStore.read (formatFatName filename) m := by
  have hfind := @asStore_find s _ (nul_not_mem_formatFatName hname.nul) hname.mark
  have hread := h.readSlot_eq (nul_not_mem_formatFatName hname.nul)
  rw [text_read (h.io 0) (fun _ => h.io 1) h512 hmax h16, shown, lookup, Store.read, hfind]
  cases hslot : appendSlot s.rootDir (formatFatName filename) with
  | none =>
      have htarget : readTarget (s.disk s.rootSector).buf (formatFatName filename) = (0, 0) := by
        rw [readTarget, show readSlot (s.disk s.rootSector).buf _ = none from hread.trans hslot]
      rw [htarget, if_pos rfl]
      rfl
  | some i =>
      have hs := single_of_appendSlot hname hown hslot
      have htarget : readTarget (s.disk s.rootSector).buf (formatFatName filename) =
          (s.slotStart i, slotSize s.rootDir i) := by
        rw [readTarget, show readSlot (s.disk s.rootSector).buf _ = some i from hread.trans hslot]
        rfl
      have hlow := hs.low.1
      rw [htarget, if_neg (show s.slotStart i ≠ 0 by omega), Option.map_some, place_of_single hs]
      simp only
      rw [bytesAt_sector _ (by omega)]
      rfl

/-! ### Listings -/

/-- The line of a slot has its name alone. -/
theorem slotLine_eq_nameLine (dir : Buf) (i : ℕ) : slotLine dir i = nameLine (slotName dir i) := by
  have hbase : (slotName dir i).take 8 = bytesAt dir (32 * i) 8 := bytesAt_take _ _ (by omega)
  have hext : (slotName dir i).drop 8 = bytesAt dir (32 * i + 8) 3 := by
    rw [slotName, bytesAt_add dir (32 * i) 8 3, List.drop_left' (bytesAt_length _ _ _)]
  have hdot : (slotName dir i)[8]? = some (dir (32 * i + 8)) := by simp [slotName, bytesAt]
  rw [slotLine, nameLine, hbase, hext, hdot]
  simp only [ne_eq, Option.some_inj]

/-- What a slot before the end mark has in a listing. -/
theorem place_line (hne : s.rootDir (32 * i) ≠ 0) : (s.place i).line =
    if s.rootDir (32 * i) = 0xE5 ∨ s.rootDir (32 * i + 11) = 0x0F then []
    else slotLine s.rootDir i := by
  by_cases hE5 : s.rootDir (32 * i) = 0xE5
  · rw [if_pos (.inl hE5), place_of_not_used fun hu => hu.2 hE5]
    rfl
  · by_cases hs : s.Single i
    · have hattr : s.rootDir (32 * i + 11) ≠ 0x0F := by
        intro heq
        have := hs.file.2
        rw [heq] at this
        exact absurd this (by decide)
      rw [place_of_single hs, if_neg (not_or.2 ⟨hE5, hattr⟩), slotLine_eq_nameLine]
      rfl
    · rw [place, if_neg hs, if_pos ⟨hne, hE5⟩, slotLine_eq_nameLine]
      simp [Place.line, hE5]

/-- The lines of a listing are those of the places. -/
theorem shown_lines {is : List ℕ}
    (hz : is.Pairwise fun i j => s.rootDir (32 * i) = 0 → s.rootDir (32 * j) = 0) :
    (shownSlots s.rootDir is).flatMap (slotLine s.rootDir) = is.flatMap fun i => (s.place i).line := by
  induction is with
  | nil => rfl
  | cons i is ih =>
      obtain ⟨hfirst, hrest⟩ := List.pairwise_cons.1 hz
      rw [shownSlots, List.flatMap_cons]
      split_ifs with hend hskip
      · have hnone : is.flatMap (fun i => (s.place i).line) = [] := by
          rw [List.flatMap_eq_nil_iff]
          intro j hj
          rw [place_of_not_used fun hu => hu.1 (hfirst j hj hend)]
          rfl
        rw [hnone, place_of_not_used fun hu => hu.1 hend]
        rfl
      · rw [ih hrest, place_line hend, if_pos hskip, List.nil_append]
      · rw [List.flatMap_cons, ih hrest, place_line hend, if_neg hskip]

/-- **A listing shows the lines of the store.** -/
theorem Orderly.list (h : s.Orderly count root) {m maxLen : ℕ} (hmax : 208 < maxLen)
    (hm : 208 ≤ m) (buffer : Buf) :
    text (fsGetDirList buffer maxLen s).1 m = s.asStore.list := by
  have hload : ∀ k < 512, load (s.disk s.rootSector) s.diskBuffer k = s.rootDir k :=
    fun k hk => load_of_lt hk
  have hlines (is : List ℕ) (his : ∀ i ∈ is, i < 16) :
      (shownSlots (load (s.disk s.rootSector) s.diskBuffer) is).flatMap
        (slotLine (load (s.disk s.rootSector) s.diskBuffer)) =
      (shownSlots s.rootDir is).flatMap (slotLine s.rootDir) := by
    induction is with
    | nil => rfl
    | cons i is ih =>
        have hi := his i List.mem_cons_self
        have hrest := ih fun j hj => his j (List.mem_cons_of_mem _ hj)
        have hline : slotLine (load (s.disk s.rootSector) s.diskBuffer) i = slotLine s.rootDir i := by
          rw [slotLine_eq_nameLine, slotLine_eq_nameLine, slotName_congr hload hi]
        rw [shownSlots, shownSlots, hload _ (by omega), hload _ (by omega)]
        split_ifs
        · rfl
        · exact hrest
        · rw [List.flatMap_cons, List.flatMap_cons, hline, hrest]
  have hzeros : (List.range 16).Pairwise fun i j =>
      s.rootDir (32 * i) = 0 → s.rootDir (32 * j) = 0 := by
    refine List.pairwise_lt_range.imp_of_mem fun hi hj hlt => ?_
    exact h.zeros _ _ (Nat.le_of_lt hlt) (List.mem_range.1 hj)
  have hlen := lines_length s.rootDir (shownSlots s.rootDir (List.range 16))
  have hslots := shownSlots_length s.rootDir (List.range 16)
  rw [List.length_range] at hslots
  rw [fsGetDirList_lines buffer (h.io 0) hmax, text_put_takeWhile, listedSlots,
    hlines _ fun i hi => List.mem_range.1 hi, List.take_of_length_le (by omega), shown_lines hzeros,
    Store.list, asStore, List.flatMap_map]

end

end FatState

/-! ### Runs -/

/-- The text that a request shows: a listing, or what a read puts in the buffer. -/
def fsReply (s : FatState) : FsRequest → List UInt8
  | .list buffer maxLen => text (fsGetDirList buffer maxLen s).1 maxLen
  | .read filename buffer maxLen => text (fsReadFileContent filename buffer maxLen s).1 (maxLen - 1)
  | _ => []

/-- A request, with the text it shows. -/
def fsCall (s : FatState) (req : FsRequest) : List UInt8 × FatState := (fsReply s req, fsStep s req)

section
variable {s : FatState} {count : ℕ} {root : List ℕ}

/-- A request leaves the root directory in order, and does to the store what it is for. -/
theorem fsStep_store (h : s.Orderly count root) {req : FsRequest} (hok : s.asStore.Admits req) :
    (fsStep s req).Orderly count root ∧
      (fsStep s req).asStore = (Store.step s.asStore req).2 := by
  have hsame (req : FsRequest) (hkept : Unchanged s (fsStep s req)) :
      (fsStep s req).Orderly count root ∧ (fsStep s req).asStore = s.asStore :=
    ⟨h.congr (fsStep_later s req) hkept.2, FatState.asStore_congr hkept.1 hkept.2⟩
  cases req with
  | list buffer maxLen => exact hsame (.list buffer maxLen) (list_unchanged buffer maxLen s)
  | read filename buffer maxLen =>
      exact hsame (.read filename buffer maxLen) (read_unchanged filename buffer maxLen s)
  | write filename data length => exact ⟨h.write hok.1 hok.2, h.asStore_write hok.1 hok.2⟩
  | append fuel filename data length =>
      obtain ⟨hfuel, hname, hlen, hown⟩ := hok
      obtain ⟨s', happend, horder, hstore⟩ := h.append data hfuel hname hlen hown
      rw [fsStep, happend, Option.getD_some]
      exact ⟨horder, hstore⟩

/-- It shows what it is to show. -/
theorem fsReply_store (h : s.Orderly count root) {req : FsRequest} (hok : s.asStore.Admits req) :
    fsReply s req = (Store.step s.asStore req).1 := by
  cases req with
  | list buffer maxLen => exact h.list hok (Nat.le_of_lt hok) buffer
  | read filename buffer maxLen =>
      have h16 := hok.2.1
      have h513 := hok.2.2.1
      exact h.read hok.1 hok.2.2.2 h16 (by omega) (by omega) buffer
  | write filename data length => rfl
  | append fuel filename data length => rfl

end

/-- **The file system refines the store.** -/
theorem fs_refines (count : ℕ) (root : List ℕ) :
    Refinement fsCall Store.step Store.Admits (fun s => s.Orderly count root) FatState.asStore where
  keeps _ _ h hok := (fsStep_store h hok).1
  answer _ _ h hok := fsReply_store h hok
  next _ _ h hok := (fsStep_store h hok).2

/-- **Runs of the file system.**  On a volume in order, with a block device that does not fail, a
run of requests shows what it shows on the store that the volume stands for, leads to the volume
of the store it leads to there, and leaves it in order. -/
theorem fs_answers {s : FatState} {count : ℕ} {root : List ℕ} (h : s.Orderly count root)
    (reqs : List FsRequest) (hok : StepsMeet (Runs.next Store.step) Store.Admits s.asStore reqs) :
    answers fsCall s reqs = answers Store.step s.asStore reqs ∧
      (run fsStep s reqs).Orderly count root ∧
      (run fsStep s reqs).asStore = run (Runs.next Store.step) s.asStore reqs :=
  (fs_refines count root).run h hok

/-! ### Volumes in order -/

section
variable {s : FatState} {count i : ℕ} {root : List ℕ}

/-- The slots of the first directory sector. -/
theorem slotByte_eq_rootDir (hw : s.WellFormed count root) (hi : i < 16) (k : ℕ) :
    s.slotByte root i k = s.rootDir (32 * i + k) := by
  rw [FatState.slotByte, hw.dirSector_eq hi, Nat.mod_eq_of_lt hi]
  rfl

/-- A slot with a file is a live entry of a volume in order. -/
theorem FatState.Consistent.entry_of_isFile (hs : s.Consistent count root) (hi : i < 16)
    (hf : s.IsFile i) : s.Entry root root i := by
  have hslots : i < s.slots root := by
    have hlen := Nat.mul_pos hs.volume.layout.sectorsPerCluster_pos hs.volume.rootChain.length_pos
    rw [FatState.slots]
    omega
  have hbyte := fun k => slotByte_eq_rootDir hs.volume hi k
  refine ⟨.root, ⟨hslots, fun m hm hz => hf.1.1 ?_, ?_, ?_⟩, fun hne => absurd rfl hne⟩
  · rw [← Nat.add_zero (32 * i), ← hbyte 0]
    exact hs.zeros m i 0 hz hm hslots (by omega)
  · rw [hbyte]
    exact hf.1.2
  · rw [hbyte]
    intro heq
    have hattr := hf.2
    rw [heq] at hattr
    exact absurd hattr (by decide)

/-- The chain of a file begins with its cluster. -/
theorem FatState.Consistent.chain_of_isFile (hs : s.Consistent count root) (hi : i < 16)
    (hf : s.IsFile i) (h2 : 2 ≤ s.slotStart i) :
    ∃ chain, s.Owns root i chain ∧ s.InUse count root chain ∧ s.slotStart i ∈ chain := by
  obtain ⟨chain, ho, huse⟩ := hs.owned _ _ (hs.entry_of_isFile hi hf)
  have hcluster : s.cluster root i = s.slotStart i := by
    rw [FatState.cluster, hs.volume.dirSector_eq hi, Nat.mod_eq_of_lt hi]
    rfl
  refine ⟨chain, ho, huse, ?_⟩
  rw [← hcluster]
  exact (ho.linked (by omega)).mem_start

/-- **A volume in order has its root directory in order.** -/
theorem FatState.Consistent.orderly (hs : s.Consistent count root) (hio : ∀ n, s.io n = true) :
    s.Orderly count root where
  volume := hs.volume
  enough := hs.enough
  io := hio
  zeros i j hij hj hz := by
    have hbyte {i : ℕ} (hi : i < 16) : s.slotByte root i 0 = s.rootDir (32 * i) :=
      slotByte_eq_rootDir hs.volume hi 0
    have hlen := Nat.mul_pos hs.volume.layout.sectorsPerCluster_pos hs.volume.rootChain.length_pos
    rw [← hbyte (by omega)] at hz ⊢
    exact hs.zeros i j 0 hz hij (by rw [FatState.slots]; omega) (by omega)
  taken i hi hf h2 _ := by
    obtain ⟨chain, -, huse, hmem⟩ := hs.chain_of_isFile hi hf h2
    exact (huse _ hmem).2.1
  apart i hi j hj hsi hsj heq := by
    by_contra hne
    obtain ⟨chain, ho, -, hmem⟩ := hs.chain_of_isFile hi hsi.file hsi.low.1
    obtain ⟨chain', ho', -, hmem'⟩ := hs.chain_of_isFile hj hsj.file hsj.low.1
    refine hs.apart root i root j chain chain' (hs.entry_of_isFile hi hsi.file)
      (hs.entry_of_isFile hj hsj.file) (fun hp => hne (Prod.ext_iff.1 hp).2) ho ho' _ hmem ?_
    rwa [heq]
  own i hi hsi := by
    obtain ⟨chain, -, huse, hmem⟩ := hs.chain_of_isFile hi hsi.file hsi.low.1
    exact (huse _ hmem).2.2

end

/-- `A` is appended to and read. -/
def appendAndRead : List FsRequest :=
  [.append 1 (ascii "A") (cString (ascii "!")) 1, .read (ascii "A") (fun _ => 0) 256]

/-- On the volume with one file. -/
theorem append_then_read : answers fsCall (oneFileVolume (ascii "A") (ascii "hi")) appendAndRead =
    [[], ascii "hi!"] := by
  have h : (oneFileVolume (ascii "A") (ascii "hi")).Consistent 126 [2] :=
    oneFileVolume_consistent (by decide)
  refine (fs_answers (h.orderly fun _ => rfl) appendAndRead ?_).1.trans ?_
  · decide +kernel
  · decide +kernel

end Fat32
end AiOsExchange
