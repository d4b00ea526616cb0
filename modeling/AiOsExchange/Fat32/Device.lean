/-
# The block device and the state of the file system

The static variables of `modules/fs/fat32.c`, the disk they describe and the device that reads
and writes it (`kernel/virtio.c`).

| source | here |
| --- | --- |
| `bytes_per_cluster` … `max_valid_clusters` | `Geometry` |
| `disk_buffer`, `write_buffer` | fields of `FatState` |
| `virtio_blk_read_sector(n, disk_buffer)` | `FatState.readDisk` |
| `virtio_blk_read_sector(n, write_buffer)` | `FatState.readWrite` |
| `virtio_blk_write_sector(n, b)` | `FatState.writeSector` |
| `cluster_to_sector` | `Geometry.clusterToSector` |
| `fs_fat32_init` | `fsFat32Init` |

A block request succeeds or fails as the stream `io` says.  A read that fails leaves the buffer
and a write that fails leaves the sector.  A buffer has 512 bytes; what its `Buf` shows from
byte 512 on is the memory behind it, which reads do not touch.
-/

import AiOsExchange.Lib.Buffer
import Mathlib.Logic.Function.Basic

namespace AiOsExchange
namespace Fat32

open CMemory

/-- The contents of a sector. -/
abbrev Sector := Fin 512 → UInt8

/-- A sector as memory, with nothing behind it. -/
def Sector.buf (sec : Sector) : Buf := fun k => if h : k < 512 then sec ⟨k, h⟩ else 0

/-- The first 512 bytes of a buffer. -/
def toSector (b : Buf) : Sector := fun k => b k

/-- A buffer after a sector was read into it. -/
def load (sec : Sector) (b : Buf) : Buf := fun k => if h : k < 512 then sec ⟨k, h⟩ else b k

/-- What mounting finds out about the volume. -/
structure Geometry where
  bytesPerCluster : ℕ
  fatStartSector : ℕ
  dataStartSector : ℕ
  rootDirCluster : ℕ
  maxValidClusters : ℕ
  deriving DecidableEq

/-- `cluster_to_sector`, in 32-bit arithmetic. -/
def Geometry.clusterToSector (g : Geometry) (cluster : ℕ) : ℕ :=
  let offset := (cluster + (2 ^ 32 - 2)) % 2 ^ 32
  let sectorsPerCluster := g.bytesPerCluster / 512
  (g.dataStartSector + offset * sectorsPerCluster) % 2 ^ 32

/-- The first sector of the root directory. -/
def Geometry.rootSector (g : Geometry) : ℕ := g.clusterToSector g.rootDirCluster

/-- The static state of the file system, the disk, and the outcomes of the block requests still
to come. -/
structure FatState extends Geometry where
  diskBuffer : Buf
  writeBuffer : Buf
  disk : ℕ → Sector
  io : ℕ → Bool

namespace FatState

/-- The outcomes after one more request. -/
def nextIo (s : FatState) : ℕ → Bool := fun n => s.io (n + 1)

/-- `virtio_blk_read_sector(n, disk_buffer)`, with whether it returned 0. -/
def readDisk (n : ℕ) (s : FatState) : Bool × FatState :=
  if s.io 0 then
    (true, { s with diskBuffer := load (s.disk n) s.diskBuffer, io := s.nextIo })
  else (false, { s with io := s.nextIo })

/-- `virtio_blk_read_sector(n, write_buffer)`, with whether it returned 0. -/
def readWrite (n : ℕ) (s : FatState) : Bool × FatState :=
  if s.io 0 then
    (true, { s with writeBuffer := load (s.disk n) s.writeBuffer, io := s.nextIo })
  else (false, { s with io := s.nextIo })

/-- `virtio_blk_write_sector(n, b)`; no caller looks at what it returns. -/
def writeSector (n : ℕ) (b : Buf) (s : FatState) : FatState :=
  { s with
    disk := if s.io 0 then Function.update s.disk n (toSector b) else s.disk
    io := s.nextIo }

end FatState

/-- `fs_fat32_init`.  A boot sector that cannot be read or has no signature leaves the static
variables as they are.  The division is by the sectors per cluster as the sector has them. -/
def fsFat32Init (s : FatState) : FatState :=
  match s.readDisk 0 with
  | (false, s) => s
  | (true, s) =>
      let b := s.diskBuffer
      if b 510 ≠ 0x55 ∨ b 511 ≠ 0xAA then s
      else
        let sectorsPerCluster := (b 13).toNat
        let fatStartSector := u16 b 14
        let totalSectors := if u32 b 32 ≠ 0 then u32 b 32 else u16 b 19
        let clusters := totalSectors / sectorsPerCluster
        { s with
          bytesPerCluster := u16 b 11 * sectorsPerCluster
          fatStartSector := fatStartSector
          dataStartSector := (fatStartSector + (b 16).toNat * u32 b 36) % 2 ^ 32
          rootDirCluster := u32 b 44
          maxValidClusters := if clusters = 0 then 65536 else clusters }

/-! ### Sectors and buffers -/

theorem Sector.buf_of_lt {sec : Sector} {k : ℕ} (h : k < 512) : sec.buf k = sec ⟨k, h⟩ := dif_pos h

theorem load_of_lt {sec : Sector} {b : Buf} {k : ℕ} (h : k < 512) : load sec b k = sec.buf k := by
  simp [load, Sector.buf, h]

/-- What a read puts over an earlier one. -/
theorem load_load (sec sec' : Sector) (b : Buf) : load sec (load sec' b) = load sec b := by
  funext k
  simp only [load]
  split_ifs <;> rfl

@[simp] theorem toSector_buf (sec : Sector) : toSector sec.buf = sec := by
  funext k
  simp [toSector, Sector.buf]

@[simp] theorem toSector_load (sec : Sector) (b : Buf) : toSector (load sec b) = sec := by
  funext k
  simp [toSector, load]

/-- **Sectors are all of a buffer that is stored.** -/
theorem toSector_congr {b b' : Buf} (h : ∀ k < 512, b k = b' k) : toSector b = toSector b' := by
  funext k
  exact h k k.isLt

theorem buf_toSector {b : Buf} {k : ℕ} (h : k < 512) : (toSector b).buf k = b k := by
  rw [Sector.buf_of_lt h, toSector]

/-- Bytes of a buffer that a sector was read into are bytes of the sector. -/
theorem bytesAt_load (sec : Sector) (b : Buf) {o n : ℕ} (h : o + n ≤ 512) :
    bytesAt (load sec b) o n = bytesAt sec.buf o n :=
  bytesAt_congr fun k hk => load_of_lt (by omega)

theorem bytesAt_toSector (b : Buf) {o n : ℕ} (h : o + n ≤ 512) :
    bytesAt (toSector b).buf o n = bytesAt b o n :=
  bytesAt_congr fun k hk => buf_toSector (by omega)

/-- A sector with some of its bytes replaced. -/
def Sector.put (sec : Sector) (o : ℕ) (l : List UInt8) : Sector := toSector (CMemory.put sec.buf o l)

theorem put_congr {b b' : Buf} {k : ℕ} (o : ℕ) (l : List UInt8) (h : b k = b' k) :
    put b o l k = put b' o l k := by
  simp [put, h]

/-- Replacing bytes in the buffer is replacing them in the sector. -/
theorem toSector_put_load (sec : Sector) (b : Buf) (o : ℕ) (l : List UInt8) :
    toSector (put (load sec b) o l) = sec.put o l :=
  toSector_congr fun _ hk => put_congr o l (load_of_lt hk)

namespace FatState

variable (s : FatState) (n : ℕ) (b : Buf)

/-! ### What a request leaves alone -/

theorem readDisk_true (h : s.io 0 = true) :
    s.readDisk n =
      (true, { s with diskBuffer := load (s.disk n) s.diskBuffer, io := s.nextIo }) := if_pos h

theorem readDisk_false (h : s.io 0 = false) : s.readDisk n = (false, { s with io := s.nextIo }) :=
  if_neg (by simp [h])

theorem readWrite_true (h : s.io 0 = true) :
    s.readWrite n =
      (true, { s with writeBuffer := load (s.disk n) s.writeBuffer, io := s.nextIo }) := if_pos h

theorem readWrite_false (h : s.io 0 = false) : s.readWrite n = (false, { s with io := s.nextIo }) :=
  if_neg (by simp [h])

/-- `s'` comes after `s`: the same volume, and no new outcomes of its requests. -/
structure Later (s s' : FatState) : Prop where
  geometry : s'.toGeometry = s.toGeometry
  io : ∃ k, ∀ n, s'.io n = s.io (n + k)

namespace Later

theorem refl (s : FatState) : Later s s := ⟨rfl, 0, fun _ => rfl⟩

theorem trans {s s' s'' : FatState} (h : Later s s') (h' : Later s' s'') : Later s s'' := by
  obtain ⟨hg, k, hk⟩ := h
  obtain ⟨hg', k', hk'⟩ := h'
  refine ⟨hg'.trans hg, k' + k, fun n => ?_⟩
  rw [hk', hk, Nat.add_assoc]

/-- A device without failures goes on without. -/
theorem io_true {s s' : FatState} (h : Later s s') (hio : ∀ n, s.io n = true) (n : ℕ) :
    s'.io n = true := by
  obtain ⟨k, hk⟩ := h.io
  rw [hk, hio]

end Later

theorem readDisk_later : Later s (s.readDisk n).2 := by
  rw [readDisk]
  split_ifs <;> exact ⟨rfl, 1, fun _ => rfl⟩

theorem readWrite_later : Later s (s.readWrite n).2 := by
  rw [readWrite]
  split_ifs <;> exact ⟨rfl, 1, fun _ => rfl⟩

end FatState

end Fat32
end AiOsExchange
