/-
# What a mount accepts

`fs_fat32_init` of `modules/fs/fat32.c` looks at two bytes of sector 0, the signature, which a
partition table has as well.  Everything else it takes as it finds it: the divisor may be zero,
the sector may have another size than the device's, and the start of the data may lie behind the
end of the volume or wrap around.

| here | the code |
| --- | --- |
| `Fat32Bpb`, `fat32Bpb` | the fields of `struct fat32_bpb` it reads |
| `fsFat32InitChecked` | `fs_fat32_init` up to a division by zero, with whether it reports success |
| `Fat32Bpb.geometry` | what it records |

`UsableGeometry` says what a mounted volume is owed, cluster by cluster.  The mount keeps its side
(`MountsUsable`) for the sectors without a signature, and for those with one exactly if the
sectors have 512 bytes and the first cluster, behind the reserved sectors and the FATs, is inside
the volume (`mountsUsable_iff`).
-/

import AiOsExchange.Fat32.Unmounted
import AiOsExchange.Fat32.Volume

namespace AiOsExchange
namespace Fat32

open CMemory

/-! ### The boot sector -/

/-- The fields of `struct fat32_bpb` that `fs_fat32_init` reads. -/
structure Fat32Bpb where
  bytesPerSector : ℕ
  sectorsPerCluster : ℕ
  reservedSectors : ℕ
  fatCount : ℕ
  totalSectors16 : ℕ
  totalSectors32 : ℕ
  sectorsPerFat32 : ℕ
  rootCluster : ℕ

/-- The fields, at their places. -/
def fat32Bpb (b : Buf) : Fat32Bpb where
  bytesPerSector := u16 b 11
  sectorsPerCluster := (b 13).toNat
  reservedSectors := u16 b 14
  fatCount := (b 16).toNat
  totalSectors16 := u16 b 19
  totalSectors32 := u32 b 32
  sectorsPerFat32 := u32 b 36
  rootCluster := u32 b 44

namespace Fat32Bpb

variable (bpb : Fat32Bpb)

/-- `total_sectors`. -/
def totalSectors : ℕ := if bpb.totalSectors32 ≠ 0 then bpb.totalSectors32 else bpb.totalSectors16

/-- What `fs_fat32_init` records, in its own arithmetic, when the quotient is `clusters`. -/
def recorded (clusters : ℕ) : Geometry where
  bytesPerCluster := bpb.bytesPerSector * bpb.sectorsPerCluster
  fatStartSector := bpb.reservedSectors
  dataStartSector := (bpb.reservedSectors + bpb.fatCount * bpb.sectorsPerFat32) % 2 ^ 32
  rootDirCluster := bpb.rootCluster
  maxValidClusters := if clusters = 0 then 65536 else clusters

/-- What it records. -/
def geometry : Geometry := bpb.recorded (bpb.totalSectors / bpb.sectorsPerCluster)

/-- Where the data of the volume starts: behind the reserved sectors and the FATs. -/
def dataStart : ℕ := bpb.reservedSectors + bpb.fatCount * bpb.sectorsPerFat32

end Fat32Bpb

/-- A division that must not be by zero. -/
def checkedDiv (a b : ℕ) : Option ℕ := if b = 0 then none else some (a / b)

/-- `fs_fat32_init`, with whether it reports success; `none` if it divides by zero. -/
def fsFat32InitChecked (s : FatState) : Option (Bool × FatState) :=
  match s.readDisk 0 with
  | (false, s) => some (false, s)
  | (true, s) =>
      let b := s.diskBuffer
      if b 510 ≠ 0x55 ∨ b 511 ≠ 0xAA then some (false, s)
      else do
        let bpb := fat32Bpb b
        let clusters ← checkedDiv bpb.totalSectors bpb.sectorsPerCluster
        some (true, { s with toGeometry := bpb.recorded clusters })

/-- The fields are in the sector, whatever is behind it. -/
theorem fat32Bpb_load (sec : Sector) (b : Buf) : fat32Bpb (load sec b) = fat32Bpb sec.buf := by
  simp only [fat32Bpb, u16, u32, bytesAt_load, load_of_lt, Nat.reduceAdd, Nat.reduceLeDiff,
    Nat.reduceLT]

theorem totalSectors_lt (b : Buf) : (fat32Bpb b).totalSectors < 2 ^ 32 := by
  have h32 := u32_lt b 32
  have h16 := u16_lt b 19
  show (if u32 b 32 ≠ 0 then u32 b 32 else u16 b 19) < 2 ^ 32
  split_ifs <;> omega

theorem Fat32Bpb.maxValidClusters_lt {bpb : Fat32Bpb} (htotal : bpb.totalSectors < 2 ^ 32) :
    bpb.geometry.maxValidClusters < 2 ^ 32 := by
  have hle := Nat.div_le_self bpb.totalSectors bpb.sectorsPerCluster
  show (if bpb.totalSectors / bpb.sectorsPerCluster = 0 then 65536
    else bpb.totalSectors / bpb.sectorsPerCluster) < 2 ^ 32
  split_ifs <;> omega

section
variable {s : FatState}

/-- **A mount that fails reports so**, and its state is that of the unchecked one. -/
theorem fsFat32InitChecked_of_fails (h : MountFails s) :
    fsFat32InitChecked s = some (false, fsFat32Init s) := by
  rw [fsFat32InitChecked, fsFat32Init]
  cases h0 : s.io 0 with
  | false => rw [s.readDisk_false _ h0]
  | true =>
      have hsig := h.resolve_left (by simp [h0])
      rw [s.readDisk_true _ h0]
      simp only [load_of_lt (show 510 < 512 by omega), load_of_lt (show 511 < 512 by omega),
        if_pos hsig]

/-- A sector 0 with the signature is read and believed. -/
theorem fsFat32Init_of_not_fails (h : ¬ MountFails s) :
    fsFat32Init s =
      { s with
        toGeometry := (fat32Bpb (s.disk 0).buf).geometry
        diskBuffer := load (s.disk 0) s.diskBuffer
        io := s.nextIo } := by
  obtain ⟨h0, hsig⟩ := not_or.1 h
  rw [fsFat32Init, s.readDisk_true _ (Bool.of_not_eq_false h0),
    ← fat32Bpb_load (s.disk 0) s.diskBuffer]
  simp only [load_of_lt (show 510 < 512 by omega), load_of_lt (show 511 < 512 by omega), if_neg hsig]
  rfl

/-- **A mount that does not fail reports success**, unless it divides by zero. -/
theorem fsFat32InitChecked_of_not_fails (h : ¬ MountFails s) :
    fsFat32InitChecked s =
      if (fat32Bpb (s.disk 0).buf).sectorsPerCluster = 0 then none
      else some (true, fsFat32Init s) := by
  obtain ⟨h0, hsig⟩ := not_or.1 h
  rw [fsFat32Init_of_not_fails h, fsFat32InitChecked, s.readDisk_true _ (Bool.of_not_eq_false h0)]
  simp only [load_of_lt (show 510 < 512 by omega), load_of_lt (show 511 < 512 by omega), if_neg hsig,
    fat32Bpb_load, checkedDiv]
  split_ifs <;> rfl

end

/-! ### What a mounted volume is owed -/

/-- `last` is the last cluster that is inside the volume as a whole; the first is cluster 2. -/
structure Fat32Bpb.LastCluster (bpb : Fat32Bpb) (last : ℕ) : Prop where
  two_le : 2 ≤ last
  fits : bpb.dataStart + (last - 1) * bpb.sectorsPerCluster ≤ bpb.totalSectors
  full : bpb.totalSectors < bpb.dataStart + last * bpb.sectorsPerCluster

/-- `cluster_to_sector` gives the clusters from 2 to `last` sectors of their own, without
wrapping, behind the start of the data and before the end of a volume of `total` sectors. -/
structure Geometry.MapsClusters (g : Geometry) (total last : ℕ) : Prop where
  last_lt : last < 2 ^ 32
  sector : ∀ c, 2 ≤ c → c ≤ last →
    g.clusterToSector c = g.dataStartSector + (c - 2) * g.sectorsPerCluster
  after : ∀ c, 2 ≤ c → c ≤ last → g.dataStartSector ≤ g.clusterToSector c
  inside : ∀ c, 2 ≤ c → c ≤ last → g.clusterToSector c + g.sectorsPerCluster ≤ total
  apart : ∀ c c', 2 ≤ c → c < c' → c' ≤ last →
    g.clusterToSector c + g.sectorsPerCluster ≤ g.clusterToSector c'

/-- The geometry recorded for a boot sector with the fields `bpb` can be used. -/
structure UsableGeometry (bpb : Fat32Bpb) (g : Geometry) : Prop where
  sectorSize : bpb.bytesPerSector = 512
  clusterSize : g.bytesPerCluster = 512 * g.sectorsPerCluster
  sectorsPerCluster_pos : 1 ≤ g.sectorsPerCluster
  dataStart : g.dataStartSector = bpb.dataStart
  clusters : ∃ last, bpb.LastCluster last ∧ g.MapsClusters bpb.totalSectors last

/-- A mount of a disk with this sector 0 divides by no zero; what it accepts can be used, and
what it refuses leaves the static variables as they were. -/
def MountsUsable (sec : Sector) : Prop :=
  ∀ s : FatState, s.disk 0 = sec → ∃ success s', fsFat32InitChecked s = some (success, s') ∧
    (success = true → UsableGeometry (fat32Bpb sec.buf) s'.toGeometry) ∧
    (success = false → s'.toGeometry = s.toGeometry)

/-! ### When it is usable -/

/-- Sectors of 512 bytes, at least one a cluster, and room for the first cluster behind the
reserved sectors and the FATs; the clusters can be numbered in 32 bits. -/
structure Fat32Bpb.HasRoom (bpb : Fat32Bpb) : Prop where
  sectorSize : bpb.bytesPerSector = 512
  sectorsPerCluster_pos : 1 ≤ bpb.sectorsPerCluster
  room : bpb.dataStart + bpb.sectorsPerCluster ≤ bpb.totalSectors
  numbers : (bpb.totalSectors - bpb.dataStart) / bpb.sectorsPerCluster + 1 < 2 ^ 32

section
variable {bpb : Fat32Bpb}

theorem Fat32Bpb.sectorsPerCluster_geometry (h : bpb.bytesPerSector = 512) :
    bpb.geometry.sectorsPerCluster = bpb.sectorsPerCluster := by
  show bpb.bytesPerSector * bpb.sectorsPerCluster / 512 = _
  rw [h, Nat.mul_div_cancel_left _ (by decide)]

namespace Fat32Bpb.HasRoom

variable (h : bpb.HasRoom)
include h

/-- The last cluster is the quotient of what is left for the data. -/
theorem lastCluster :
    bpb.LastCluster ((bpb.totalSectors - bpb.dataStart) / bpb.sectorsPerCluster + 1) := by
  have hpos := h.sectorsPerCluster_pos
  have hroom := h.room
  have hone : 1 ≤ (bpb.totalSectors - bpb.dataStart) / bpb.sectorsPerCluster :=
    (Nat.le_div_iff_mul_le hpos).2 (by omega)
  have hle := Nat.div_mul_le_self (bpb.totalSectors - bpb.dataStart) bpb.sectorsPerCluster
  have hlt : bpb.totalSectors - bpb.dataStart <
      ((bpb.totalSectors - bpb.dataStart) / bpb.sectorsPerCluster + 1) * bpb.sectorsPerCluster :=
    (Nat.div_lt_iff_lt_mul hpos).1 (Nat.lt_succ_self _)
  refine ⟨by omega, ?_, ?_⟩
  · rw [Nat.add_sub_cancel]
    omega
  · omega

/-- **No sum, product or difference wraps.** -/
theorem mapsClusters {last : ℕ} (htotal : bpb.totalSectors < 2 ^ 32) (hlast : bpb.LastCluster last)
    (hlt : last < 2 ^ 32) : bpb.geometry.MapsClusters bpb.totalSectors last := by
  have hspc := bpb.sectorsPerCluster_geometry h.sectorSize
  have hroom := h.room
  have hfits := hlast.fits
  have hdata : bpb.geometry.dataStartSector = bpb.dataStart := Nat.mod_eq_of_lt (by
    show bpb.dataStart < 2 ^ 32
    omega)
  -- the end of a cluster is the start of the next one, and not behind the last one's end
  have hend (c d : ℕ) (hc : 2 ≤ c) (hd : c ≤ d) :
      (c - 2) * bpb.sectorsPerCluster + bpb.sectorsPerCluster ≤ (d - 1) * bpb.sectorsPerCluster := by
    rw [← Nat.succ_mul]
    exact Nat.mul_le_mul_right _ (by omega)
  have hsector (c : ℕ) (hc : 2 ≤ c) (hle : c ≤ last) :
      bpb.geometry.clusterToSector c =
        bpb.geometry.dataStartSector + (c - 2) * bpb.geometry.sectorsPerCluster := by
    have hoff : (c + (2 ^ 32 - 2)) % 2 ^ 32 = c - 2 := by omega
    have := hend c last hc hle
    show (bpb.geometry.dataStartSector + (c + (2 ^ 32 - 2)) % 2 ^ 32 *
      bpb.geometry.sectorsPerCluster) % 2 ^ 32 = _
    rw [hoff, hspc, hdata]
    exact Nat.mod_eq_of_lt (by omega)
  refine ⟨hlt, hsector, fun c hc hle => ?_, fun c hc hle => ?_, fun c c' hc hcc hle => ?_⟩
  · rw [hsector c hc hle]
    exact Nat.le_add_right _ _
  · have := hend c last hc hle
    rw [hsector c hc hle, hspc, hdata]
    omega
  · have := hend c (c' - 1) hc (by omega)
    rw [hsector c hc (by omega), hsector c' (by omega) hle, hspc,
      show c' - 2 = c' - 1 - 1 by omega]
    omega

theorem usableGeometry (htotal : bpb.totalSectors < 2 ^ 32) : UsableGeometry bpb bpb.geometry := by
  have hspc := bpb.sectorsPerCluster_geometry h.sectorSize
  have hroom := h.room
  refine ⟨h.sectorSize, ?_, ?_, ?_, _, h.lastCluster, h.mapsClusters htotal h.lastCluster h.numbers⟩
  · rw [hspc, ← h.sectorSize]
    rfl
  · rw [hspc]
    exact h.sectorsPerCluster_pos
  · exact Nat.mod_eq_of_lt (by
      show bpb.dataStart < 2 ^ 32
      omega)

/-- **With a FAT that is long enough, the volume has the layout the files rely on.** -/
theorem wellFormed (htotal : bpb.totalSectors < 2 ^ 32) (hbyte : bpb.sectorsPerCluster < 256)
    {count : ℕ} (hcount : count = (bpb.totalSectors - bpb.dataStart) / bpb.sectorsPerCluster)
    (hfat : bpb.reservedSectors + (count + 2 + 127) / 128 ≤ bpb.dataStart) :
    bpb.geometry.WellFormed count := by
  have husable := h.usableGeometry htotal
  have hspc := bpb.sectorsPerCluster_geometry h.sectorSize
  have hroom := h.room
  have hpos := h.sectorsPerCluster_pos
  have hquot : 1 ≤ bpb.totalSectors / bpb.sectorsPerCluster :=
    (Nat.le_div_iff_mul_le hpos).2 (by omega)
  have hmax : bpb.geometry.maxValidClusters = bpb.totalSectors / bpb.sectorsPerCluster :=
    if_neg (by omega)
  have hle := Nat.div_mul_le_self (bpb.totalSectors - bpb.dataStart) bpb.sectorsPerCluster
  refine ⟨husable.clusterSize, husable.sectorsPerCluster_pos, ?_, ?_,
    Fat32Bpb.maxValidClusters_lt htotal, ?_, ?_⟩
  · rwa [hspc]
  · rw [hmax, hcount]
    exact Nat.div_le_div_right (Nat.sub_le _ _)
  · rw [husable.dataStart]
    exact hfat
  · rw [husable.dataStart, hspc, hcount]
    omega

end Fat32Bpb.HasRoom

/-- What can be used has room. -/
theorem UsableGeometry.hasRoom (h : UsableGeometry bpb bpb.geometry) : bpb.HasRoom := by
  obtain ⟨last, hlast, hmaps⟩ := h.clusters
  have hpos : 1 ≤ bpb.sectorsPerCluster := by
    rw [← bpb.sectorsPerCluster_geometry h.sectorSize]
    exact h.sectorsPerCluster_pos
  have htwo := hlast.two_le
  have hfits := hlast.fits
  have hfull := hlast.full
  have hone : 1 * bpb.sectorsPerCluster ≤ (last - 1) * bpb.sectorsPerCluster :=
    Nat.mul_le_mul_right _ (by omega)
  refine ⟨h.sectorSize, hpos, by omega, ?_⟩
  have hquot : (bpb.totalSectors - bpb.dataStart) / bpb.sectorsPerCluster < last :=
    (Nat.div_lt_iff_lt_mul hpos).2 (by omega)
  have := hmaps.last_lt
  omega

end

/-- A disk with this sector 0, not mounted yet, on a device without failures. -/
def diskWith (sec : Sector) : FatState where
  toGeometry := unmounted
  diskBuffer := fun _ => 0
  writeBuffer := fun _ => 0
  disk := fun _ => sec
  io := fun _ => true

/-- **A mount accepts only usable volumes exactly if sector 0 has no signature or has room.** -/
theorem mountsUsable_iff (sec : Sector) :
    MountsUsable sec ↔
      sec.buf 510 ≠ 0x55 ∨ sec.buf 511 ≠ 0xAA ∨ (fat32Bpb sec.buf).HasRoom := by
  constructor
  · intro h
    by_cases hsig : sec.buf 510 ≠ 0x55 ∨ sec.buf 511 ≠ 0xAA
    · exact hsig.imp_right .inl
    · obtain ⟨success, s', hrun, huse, -⟩ := h (diskWith sec) rfl
      have hmounts : ¬ MountFails (diskWith sec) := not_or.2 ⟨Bool.noConfusion, hsig⟩
      have hinit := fsFat32Init_of_not_fails hmounts
      rw [fsFat32InitChecked_of_not_fails hmounts] at hrun
      split_ifs at hrun
      cases hrun
      refine .inr (.inr (UsableGeometry.hasRoom ?_))
      have := huse rfl
      rwa [hinit] at this
  · rintro h s rfl
    by_cases hfails : MountFails s
    · exact ⟨false, fsFat32Init s, fsFat32InitChecked_of_fails hfails, Bool.noConfusion,
        fun _ => (fsFat32Init_of_fails hfails).1⟩
    · have hroom : (fat32Bpb (s.disk 0).buf).HasRoom := by
        obtain ⟨-, hsig⟩ := not_or.1 hfails
        tauto
      have hpos := hroom.sectorsPerCluster_pos
      refine ⟨true, fsFat32Init s, ?_, fun _ => ?_, Bool.noConfusion⟩
      · rw [fsFat32InitChecked_of_not_fails hfails, if_neg (by omega)]
      · rw [fsFat32Init_of_not_fails hfails]
        exact hroom.usableGeometry (totalSectors_lt _)

/-- An empty partition table: zeros and the signature. -/
def emptyTable : Sector := fun k => if k = 510 then 0x55 else if k = 511 then 0xAA else 0

/-- **An empty partition table is divided by its zeros.** -/
theorem empty_table_divides : ¬ ∀ sec, MountsUsable sec := by
  intro h
  obtain ⟨success, s', hrun, -⟩ := h emptyTable (diskWith emptyTable) rfl
  have hzero : fsFat32InitChecked (diskWith emptyTable) = none := by
    have hmounts : ¬ MountFails (diskWith emptyTable) := by
      rw [MountFails]
      decide
    rw [fsFat32InitChecked_of_not_fails hmounts, if_pos (by decide)]
  rw [hzero] at hrun
  cases hrun

end Fat32
end AiOsExchange
