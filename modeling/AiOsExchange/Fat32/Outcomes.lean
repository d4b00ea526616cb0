/-
# What the file operations come to

`modules/fs/fat32.c`.  The outcome of a write in the terms of the disk it finds: the FAT sector
with an entry taken (`afterFat`), the data sector filled (`afterData`), the root directory with
a new entry (`disk_write`).  The outcome of a read is what its buffer shows as a string
(`shown`), which depends on the root sector and on one data sector alone.
-/

import AiOsExchange.Fat32.Files

namespace AiOsExchange
namespace Fat32

open CMemory

/-! ### What the searches find -/

theorem freeSlot_eq_some_iff {dir : Buf} {i : ℕ} :
    freeSlot dir = some i ↔ i < 16 ∧ (dir (32 * i) = 0 ∨ dir (32 * i) = 0xE5) ∧
      ∀ j < i, dir (32 * j) ≠ 0 ∧ dir (32 * j) ≠ 0xE5 := by
  simp only [freeSlot, List.find?_range_eq_some, List.mem_range, decide_eq_true_eq,
    Bool.not_eq_true', decide_eq_false_iff_not, not_or]
  tauto

theorem readSlot_eq_some_iff {dir : Buf} {target : List UInt8} {i : ℕ} :
    readSlot dir target = some i ↔ i < 16 ∧ dir (32 * i) ≠ 0 ∧ slotName dir i = target ∧
      ∀ j < i, dir (32 * j) ≠ 0 ∧ slotName dir j ≠ target := by
  simp only [readSlot, Option.filter_eq_some_iff, List.find?_range_eq_some, List.mem_range,
    decide_eq_true_eq, Bool.not_eq_true', decide_eq_false_iff_not, not_or]
  tauto

theorem freeCluster_bounds {fat : Buf} {c : ℕ} (h : freeCluster fat = some c) : 2 ≤ c ∧ c < 128 := by
  have := List.mem_range'.1 (List.mem_of_find?_eq_some h)
  omega

theorem fatEntry_of_freeCluster {fat : Buf} {c : ℕ} (h : freeCluster fat = some c) :
    fatEntry fat c = 0 := by
  simpa using List.find?_some h

/-! ### The entry that is written -/

section
variable {dir : Buf} {i : ℕ} {target : List UInt8} {c length : ℕ}

/-- The directory with the entry of a write in slot `i`. -/
def withEntry (dir : Buf) (i : ℕ) (target : List UInt8) (c length : ℕ) : Buf :=
  put dir (32 * i) (dirEntry target c length)

@[simp] theorem dirEntry_length (h : target.length = 11) :
    (dirEntry target c length).length = 32 := by
  simp [dirEntry, h]

/-- A field of the entry that was written. -/
theorem bytesAt_withEntry (h : target.length = 11) {o n : ℕ} (ho : o + n ≤ 32) :
    bytesAt (withEntry dir i target c length) (32 * i + o) n =
      ((dirEntry target c length).drop o).take n :=
  bytesAt_put_part _ _ (by rw [dirEntry_length h]; exact ho)

/-- The attribute of an entry that was written. -/
theorem attr_withEntry (h : target.length = 11) :
    withEntry dir i target c length (32 * i + 11) = 0x20 := by
  have hf := @bytesAt_withEntry dir i target c length h 11 1 (by omega)
  have hb : ((dirEntry target c length).drop 11).take 1 = [0x20] := by
    simp [dirEntry, h]
  rw [hb] at hf
  simpa [bytesAt] using hf

/-- **The entry that was written has the name, the cluster and the length.** -/
theorem slotName_withEntry_self (h : target.length = 11) :
    slotName (withEntry dir i target c length) i = target := by
  have hf := @bytesAt_withEntry dir i target c length h 0 11 (by omega)
  rw [Nat.add_zero] at hf
  rw [slotName, hf]
  simp [dirEntry, h]

theorem slotCluster_withEntry_self (h : target.length = 11) (hc : c < 2 ^ 16) :
    slotCluster (withEntry dir i target c length) i = c := by
  have hhi : u16 (withEntry dir i target c length) (32 * i + 20) = 0 := by
    rw [u16, bytesAt_withEntry h (by omega)]
    have hl : ((dirEntry target c length).drop 20).take 2 = toLE 2 (c / 2 ^ 16) := by
      simp [dirEntry, List.drop_append, List.drop_of_length_le, h]
    rw [hl, Nat.div_eq_of_lt hc]
    rfl
  have hlo : u16 (withEntry dir i target c length) (32 * i + 26) = c := by
    rw [u16, bytesAt_withEntry h (by omega)]
    have hl : ((dirEntry target c length).drop 26).take 2 = toLE 2 c := by
      simp [dirEntry, List.drop_append, List.drop_of_length_le, h]
    rw [hl, ofLE_toLE (by simpa using hc)]
  rw [slotCluster, hhi, hlo]
  omega

theorem slotSize_withEntry_self (h : target.length = 11) (hl : length < 2 ^ 32) :
    slotSize (withEntry dir i target c length) i = length := by
  have hf : ((dirEntry target c length).drop 28).take 4 = toLE 4 length := by
    simp [dirEntry, List.drop_append, List.drop_of_length_le, List.take_of_length_le, h]
  rw [slotSize, u32, bytesAt_withEntry h (by omega), hf, ofLE_toLE (by simpa using hl)]

/-- The first byte of the entry is the first of the name. -/
theorem withEntry_first (h : target.length = 11) (h0 : (0 : UInt8) ∉ target) :
    withEntry dir i target c length (32 * i) ≠ 0 := by
  have hn := @slotName_withEntry_self dir i target c length h
  rintro hz
  apply h0
  rw [← hn, slotName]
  exact List.mem_map.2 ⟨0, by simp, hz⟩

/-- The other slots stay as they are. -/
theorem withEntry_of_ne {j k : ℕ} (h : target.length = 11) (hj : j ≠ i) (hk : k < 32) :
    withEntry dir i target c length (32 * j + k) = dir (32 * j + k) := by
  rcases Nat.lt_or_gt_of_ne hj with hlt | hgt
  · exact put_of_lt (by omega)
  · exact put_of_ge (by rw [dirEntry_length h]; omega)

theorem withEntry_first_of_ne {j : ℕ} (h : target.length = 11) (hj : j ≠ i) :
    withEntry dir i target c length (32 * j) = dir (32 * j) := by
  have := @withEntry_of_ne dir i target c length j 0 h hj (by omega)
  rwa [Nat.add_zero] at this

theorem slotName_withEntry_of_ne {j : ℕ} (h : target.length = 11) (hj : j ≠ i) :
    slotName (withEntry dir i target c length) j = slotName dir j :=
  bytesAt_congr fun _ hk => withEntry_of_ne h hj (by omega)

theorem slotCluster_withEntry_of_ne {j : ℕ} (h : target.length = 11) (hj : j ≠ i) :
    slotCluster (withEntry dir i target c length) j = slotCluster dir j := by
  have h1 : bytesAt (withEntry dir i target c length) (32 * j + 20) 2 = bytesAt dir (32 * j + 20) 2 :=
    bytesAt_congr fun k hk => by rw [Nat.add_assoc, withEntry_of_ne h hj (by omega)]
  have h2 : bytesAt (withEntry dir i target c length) (32 * j + 26) 2 = bytesAt dir (32 * j + 26) 2 :=
    bytesAt_congr fun k hk => by rw [Nat.add_assoc, withEntry_of_ne h hj (by omega)]
  rw [slotCluster, slotCluster, u16, u16, u16, u16, h1, h2]

theorem slotSize_withEntry_of_ne {j : ℕ} (h : target.length = 11) (hj : j ≠ i) :
    slotSize (withEntry dir i target c length) j = slotSize dir j := by
  have h1 : bytesAt (withEntry dir i target c length) (32 * j + 28) 4 = bytesAt dir (32 * j + 28) 4 :=
    bytesAt_congr fun k hk => by rw [Nat.add_assoc, withEntry_of_ne h hj (by omega)]
  rw [slotSize, slotSize, u32, u32, h1]

/-- **After a write the name leads to the new entry**, unless an earlier slot has it. -/
theorem readSlot_withEntry (h : target.length = 11) (h0 : (0 : UInt8) ∉ target)
    (hf : freeSlot dir = some i) (hn : ∀ j < i, slotName dir j ≠ target) :
    readSlot (withEntry dir i target c length) target = some i := by
  obtain ⟨hi, -, hbefore⟩ := freeSlot_eq_some_iff.1 hf
  refine readSlot_eq_some_iff.2 ⟨hi, withEntry_first h h0, slotName_withEntry_self h, fun j hj => ?_⟩
  rw [slotName_withEntry_of_ne h (Nat.ne_of_lt hj), withEntry_first_of_ne h (Nat.ne_of_lt hj)]
  exact ⟨(hbefore j hj).1, hn j hj⟩

/-- An earlier slot with the name hides the new entry. -/
theorem readSlot_withEntry_of_lt (h : target.length = 11) {j : ℕ}
    (hr : readSlot dir target = some j) (hj : j < i) :
    readSlot (withEntry dir i target c length) target = some j := by
  obtain ⟨hlt, hne, hname, hbefore⟩ := readSlot_eq_some_iff.1 hr
  refine readSlot_eq_some_iff.2 ⟨hlt, ?_, ?_, fun k hk => ?_⟩
  · rw [withEntry_first_of_ne h (Nat.ne_of_lt hj)]
    exact hne
  · rw [slotName_withEntry_of_ne h (Nat.ne_of_lt hj)]
    exact hname
  · rw [withEntry_first_of_ne h (by omega), slotName_withEntry_of_ne h (by omega)]
    exact hbefore k hk

end

/-! ### The outcome of a write -/

/-- The sector of a file's first 512 bytes. -/
def dataSector (data : Buf) (length : ℕ) : Sector := toSector (dataBlock (fun _ => 0) data length)

theorem toSector_dataBlock (b data : Buf) (length : ℕ) :
    toSector (dataBlock b data length) = dataSector data length := by
  apply toSector_congr
  intro k hk
  rw [dataBlock, dataBlock]
  apply put_congr
  have hzero (b : Buf) : put b 0 (List.replicate 512 0) k = 0 := by
    rw [put_apply_zero (by rwa [List.length_replicate]), List.getElem_replicate]
  rw [hzero, hzero]

namespace FatState

/-- The disk once the FAT sector is written. -/
def afterFat (s : FatState) (c : ℕ) : ℕ → Sector :=
  if s.io 1 then
    Function.update s.disk s.fatStartSector ((s.disk s.fatStartSector).put (4 * c) endOfChain)
  else s.disk

/-- The disk once the data sector is written. -/
def afterData (s : FatState) (c : ℕ) (data : Buf) (length : ℕ) : ℕ → Sector :=
  if s.io 2 then Function.update (s.afterFat c) (s.clusterToSector c) (dataSector data length)
  else s.afterFat c

/-- The root sector as a write reads it. -/
def rootBefore (s : FatState) (c : ℕ) (data : Buf) (length : ℕ) : Buf :=
  (s.afterData c data length s.rootSector).buf

/-- The slot a write fills, if it gets to write the root sector. -/
def enteredSlot (s : FatState) (c : ℕ) (data : Buf) (length : ℕ) : Option ℕ :=
  if s.io 3 && s.io 4 then freeSlot (s.rootBefore c data length) else none

end FatState

section
variable {s : FatState} {filename target : List UInt8} {data : Buf} {length c : ℕ}

theorem freeCluster_load (sec : Sector) (b : Buf) :
    freeCluster (load sec b) = freeCluster sec.buf :=
  freeCluster_congr fun _ hk => load_of_lt hk

theorem freeSlot_load (sec : Sector) (b : Buf) : freeSlot (load sec b) = freeSlot sec.buf :=
  freeSlot_congr fun _ hk => load_of_lt hk

theorem appendSlot_load (sec : Sector) (b : Buf) (target : List UInt8) :
    appendSlot (load sec b) target = appendSlot sec.buf target :=
  appendSlot_congr (fun _ hk => load_of_lt hk) target

theorem slotCluster_load (sec : Sector) (b : Buf) {i : ℕ} (hi : i < 16) :
    slotCluster (load sec b) i = slotCluster sec.buf i :=
  slotCluster_congr (fun _ hk => load_of_lt hk) hi

theorem slotSize_load (sec : Sector) (b : Buf) {i : ℕ} (hi : i < 16) :
    slotSize (load sec b) i = slotSize sec.buf i :=
  slotSize_congr (fun _ hk => load_of_lt hk) hi

theorem disk_writeEntry (s : FatState) :
    (writeEntry target c length s).disk =
      match if s.io 0 && s.io 1 then freeSlot (s.disk s.rootSector).buf else none with
      | some i =>
          Function.update s.disk s.rootSector
            (toSector (withEntry (s.disk s.rootSector).buf i target c length))
      | none => s.disk := by
  rw [writeEntry]
  cases h0 : s.io 0 with
  | false => simp only [s.readDisk_false _ h0, Bool.false_and, Bool.false_eq_true, if_false]
  | true =>
      simp only [s.readDisk_true _ h0, freeSlot_load, Bool.true_and]
      cases hf : freeSlot (s.disk s.rootSector).buf with
      | none => simp
      | some i =>
          cases h1 : s.io 1 with
          | false => simp [FatState.writeSector, FatState.nextIo, h1]
          | true =>
              simp only [FatState.writeSector, FatState.nextIo, Nat.zero_add, h1, if_true]
              rw [toSector_put_load, Sector.put, withEntry]

/-- A write that cannot read the FAT sector or finds no free entry there leaves the disk. -/
theorem disk_write_of_stuck
    (h : s.io 0 = false ∨ freeCluster (s.disk s.fatStartSector).buf = none) :
    (fsWriteFileContent filename data length s).disk = s.disk := by
  rw [fsWriteFileContent]
  cases h0 : s.io 0 with
  | false => rw [s.readDisk_false _ h0]
  | true =>
      rw [s.readDisk_true _ h0]
      simp only [freeCluster_load, h.resolve_left (by simp [h0])]

/-- **The outcome of a write** that finds a free FAT entry. -/
theorem disk_write (h0 : s.io 0 = true) (hc : freeCluster (s.disk s.fatStartSector).buf = some c) :
    (fsWriteFileContent filename data length s).disk =
      match s.enteredSlot c data length with
      | some i =>
          Function.update (s.afterData c data length) s.rootSector
            (toSector (withEntry (s.rootBefore c data length) i (formatFatName filename) c length))
      | none => s.afterData c data length := by
  have hdisk : (writeBlocks c data length (s.readDisk s.fatStartSector).2).disk =
      s.afterData c data length := by
    rw [s.readDisk_true _ h0]
    simp only [writeBlocks, FatState.writeSector, FatState.nextIo, FatState.afterData,
      FatState.afterFat, toSector_put_load, toSector_dataBlock]
  rw [s.readDisk_true _ h0] at hdisk
  rw [fsWriteFileContent, s.readDisk_true _ h0]
  simp only [freeCluster_load, hc]
  rw [disk_writeEntry, hdisk]
  rfl

theorem writeEntry_later (s : FatState) : s.Later (writeEntry target c length s) := by
  have hread := s.readDisk_later s.rootSector
  rw [writeEntry]
  generalize s.readDisk s.rootSector = r at hread ⊢
  rcases r with ⟨_ | _, s'⟩
  · exact hread
  · simp only
    cases freeSlot s'.diskBuffer with
    | none => exact hread
    | some i => exact hread.trans ⟨rfl, 1, fun _ => rfl⟩

theorem writeBlocks_later (s : FatState) : s.Later (writeBlocks c data length s) :=
  ⟨rfl, 2, fun _ => rfl⟩

/-- A write leaves the geometry of the volume. -/
theorem write_later (s : FatState) : s.Later (fsWriteFileContent filename data length s) := by
  have hread := s.readDisk_later s.fatStartSector
  rw [fsWriteFileContent]
  generalize s.readDisk s.fatStartSector = r at hread ⊢
  rcases r with ⟨_ | _, s'⟩
  · exact hread
  · simp only
    cases freeCluster s'.diskBuffer with
    | none => exact hread
    | some c => exact (hread.trans (writeBlocks_later s')).trans (writeEntry_later _)

end

/-! ### The outcome of a read -/

section
variable {s : FatState} {filename : List UInt8} {buffer : Buf} {maxLen : ℕ}

theorem readTarget_congr {b b' : Buf} (h : ∀ k < 512, b k = b' k) (target : List UInt8) :
    readTarget b target = readTarget b' target := by
  rw [readTarget, readTarget, readSlot_congr h]
  cases hr : readSlot b' target with
  | none => rfl
  | some i =>
      have hi := (readSlot_eq_some_iff.1 hr).1
      simp only [slotCluster_congr h hi, slotSize_congr h hi]

theorem readTarget_load (sec : Sector) (b : Buf) (target : List UInt8) :
    readTarget (load sec b) target = readTarget sec.buf target :=
  readTarget_congr (fun _ hk => load_of_lt hk) target

theorem readTarget_toSector (b : Buf) (target : List UInt8) :
    readTarget (toSector b).buf target = readTarget b target :=
  readTarget_congr (fun _ hk => buf_toSector hk) target

/-- What the directory of this volume has for a name: cluster and size. -/
def FatState.lookup (s : FatState) (filename : List UInt8) : ℕ × ℕ :=
  readTarget (s.disk s.rootSector).buf (formatFatName filename)

/-- A read that cannot read the root sector gives the empty string. -/
theorem read_of_root_fail (h0 : s.io 0 = false) :
    (fsReadFileContent filename buffer maxLen s).1 = put buffer 0 [0] := by
  rw [fsReadFileContent, s.readDisk_false _ h0]

/-- A read that finds no file says so. -/
theorem read_of_not_found (h0 : s.io 0 = true) (hl : (s.lookup filename).1 = 0) :
    (fsReadFileContent filename buffer maxLen s).1 =
      put (put buffer 0 (fileNotFound.take (maxLen - 1))) 16 [0] := by
  rw [fsReadFileContent, s.readDisk_true _ h0]
  simp only [readTarget_load]
  rw [FatState.lookup] at hl
  simp only [hl, if_true]

/-- **A read that cannot read the data sector leaves the buffer.** -/
theorem read_of_data_fail (h0 : s.io 0 = true) (hl : (s.lookup filename).1 ≠ 0)
    (h1 : s.io 1 = false) : (fsReadFileContent filename buffer maxLen s).1 = buffer := by
  rw [fsReadFileContent, s.readDisk_true _ h0]
  simp only [readTarget_load]
  rw [FatState.lookup] at hl
  simp only [if_neg hl]
  rw [FatState.readDisk_false _ _ h1]

/-- **A read copies the first data sector**, cut at the size and to fit, and from byte 512 on
what lies behind it. -/
theorem read_of_found (h0 : s.io 0 = true) (hl : (s.lookup filename).1 ≠ 0) (h1 : s.io 1 = true) :
    (fsReadFileContent filename buffer maxLen s).1 =
      put buffer 0 (bytesAt
        (load (s.disk (s.clusterToSector (s.lookup filename).1)) s.diskBuffer) 0
        (min (s.lookup filename).2 (maxLen - 1)) ++ [0]) := by
  rw [fsReadFileContent, s.readDisk_true _ h0]
  simp only [readTarget_load]
  rw [FatState.lookup] at hl ⊢
  simp only [if_neg hl]
  rw [FatState.readDisk_true _ _ h1]
  simp only [load_load]

/-- The string a read leaves, cut at `m` bytes. -/
def FatState.shown (s : FatState) (filename : List UInt8) (m : ℕ) : List UInt8 :=
  if (s.lookup filename).1 = 0 then fileNotFound.take m
  else
    (bytesAt (s.disk (s.clusterToSector (s.lookup filename).1)).buf 0
      (min (s.lookup filename).2 m)).takeWhile (· ≠ 0)

/-- **The string of a read** whose block requests succeed. -/
theorem text_read {m : ℕ} (h0 : s.io 0 = true) (h1 : (s.lookup filename).1 ≠ 0 → s.io 1 = true)
    (hm : m ≤ 512) (hmax : m < maxLen) (h16 : 16 < maxLen) :
    text (fsReadFileContent filename buffer maxLen s).1 m = s.shown filename m := by
  by_cases hl : (s.lookup filename).1 = 0
  · have hlen : fileNotFound.length = 16 := by decide
    have h0 : (0 : UInt8) ∉ fileNotFound.take m := fun h =>
      absurd (List.mem_of_mem_take h) (by decide)
    have hput := put_put_append buffer 0 fileNotFound [0]
    rw [hlen, Nat.zero_add] at hput
    rw [read_of_not_found ‹_› hl, List.take_of_length_le (by omega), hput, text_put_takeWhile,
      takeWhile_ne_zero h0, FatState.shown, if_pos hl]
  · rw [read_of_found h0 hl (h1 hl), text_put_takeWhile, FatState.shown, if_neg hl]
    have hcut : min (min (s.lookup filename).2 (maxLen - 1)) m = min (s.lookup filename).2 m := by
      omega
    have htake : (bytesAt (load (s.disk (s.clusterToSector (s.lookup filename).1)) s.diskBuffer) 0
        (min (s.lookup filename).2 (maxLen - 1))).take m =
        bytesAt (s.disk (s.clusterToSector (s.lookup filename).1)).buf 0
          (min (s.lookup filename).2 m) := by
      rw [← bytesAt_load _ s.diskBuffer (by omega), ← hcut]
      rcases Nat.le_total m (min (s.lookup filename).2 (maxLen - 1)) with h | h
      · rw [bytesAt_take _ _ h, Nat.min_eq_right h]
      · rw [List.take_of_length_le (by simpa using h), Nat.min_eq_left h]
    rw [htake]

end

end Fat32
end AiOsExchange
