/-
# Listing, reading, writing and appending

The four file operations of `modules/fs/fat32.c`, each as it walks through its block requests.

| source | here |
| --- | --- |
| `fs_get_dir_list` | `fsGetDirList` |
| `fs_read_file_content` | `fsReadFileContent` |
| `fs_write_file_content` | `fsWriteFileContent`, in the halves `writeBlocks` and `writeEntry` |
| `fs_append_file_content` | `fsAppendFileContent` |

A file name is the bytes of its string.  `data` is the memory at the pointer and a `buffer` that
is filled is returned.  The walk along the FAT need not end, so an append carries fuel for it.
What is printed on the UART is left out, and with it the two operations that only print,
`fs_list_root` and `fs_read_test_file`.
-/

import AiOsExchange.Fat32.Directory

namespace AiOsExchange
namespace Fat32

open CMemory

/-! ### Listing -/

/-- `if (pos < max_len - 1) buffer[pos++] = c;` -/
def emit (maxLen : ℕ) (out : List UInt8) (c : UInt8) : List UInt8 :=
  if out.length < maxLen - 1 then out ++ [c] else out

/-- The line of slot `i`: the name without its blanks, a dot before an extension. -/
def emitName (maxLen : ℕ) (dir : Buf) (i : ℕ) (out : List UInt8) : List UInt8 :=
  let out := ((bytesAt dir (32 * i) 8).filter (· ≠ 32)).foldl (emit maxLen) out
  let out :=
    if dir (32 * i + 8) ≠ 32 ∧ out.length < maxLen - 1 then
      ((bytesAt dir (32 * i + 8) 3).filter (· ≠ 32)).foldl (emit maxLen) (out ++ [46])
    else out
  emit maxLen out 10

/-- The loop of `fs_get_dir_list` over these slots. -/
def listSlots (maxLen : ℕ) (dir : Buf) : List ℕ → List UInt8 → List UInt8
  | [], out => out
  | i :: is, out =>
      if dir (32 * i) = 0 then out
      else if dir (32 * i) = 0xE5 ∨ dir (32 * i + 11) = 0x0F then listSlots maxLen dir is out
      else listSlots maxLen dir is (emitName maxLen dir i out)

/-- `fs_get_dir_list`. -/
def fsGetDirList (buffer : Buf) (maxLen : ℕ) (s : FatState) : Buf × FatState :=
  match s.readDisk s.rootSector with
  | (false, s) => (put buffer 0 [0], s)
  | (true, s) => (put buffer 0 (listSlots maxLen s.diskBuffer (List.range 16) [] ++ [0]), s)

/-! ### Reading -/

/-- `"File not found.\n"`. -/
def fileNotFound : List UInt8 := ascii "File not found.\n"

/-- The cluster and size `fs_read_file_content` takes from the directory; no cluster is 0. -/
def readTarget (dir : Buf) (target : List UInt8) : ℕ × ℕ :=
  match readSlot dir target with
  | some i => (slotCluster dir i, slotSize dir i)
  | none => (0, 0)

/-- `fs_read_file_content`. -/
def fsReadFileContent (filename : List UInt8) (buffer : Buf) (maxLen : ℕ) (s : FatState) :
    Buf × FatState :=
  match s.readDisk s.rootSector with
  | (false, s) => (put buffer 0 [0], s)
  | (true, s) =>
      let (targetCluster, targetSize) := readTarget s.diskBuffer (formatFatName filename)
      if targetCluster = 0 then
        (put (put buffer 0 (fileNotFound.take (maxLen - 1))) 16 [0], s)
      else
        match s.readDisk (s.clusterToSector targetCluster) with
        | (false, s) => (buffer, s)
        | (true, s) =>
            let bytesToCopy := min targetSize (maxLen - 1)
            (put buffer 0 (bytesAt s.diskBuffer 0 bytesToCopy ++ [0]), s)

/-! ### Writing -/

/-- `write_buffer`, zeroed and filled with at most 512 bytes of data. -/
def dataBlock (b data : Buf) (length : ℕ) : Buf :=
  put (put b 0 (List.replicate 512 0)) 0 (bytesAt data 0 (min length 512))

/-- The first half of a write: the FAT sector in `disk_buffer` with entry `c` taken, and the
data sector of cluster `c`. -/
def writeBlocks (c : ℕ) (data : Buf) (length : ℕ) (s : FatState) : FatState :=
  let s := { s with diskBuffer := put s.diskBuffer (4 * c) endOfChain }
  let s := s.writeSector s.fatStartSector s.diskBuffer
  let s := { s with writeBuffer := dataBlock s.writeBuffer data length }
  s.writeSector (s.clusterToSector c) s.writeBuffer

/-- The second half of a write: the entry in the root directory. -/
def writeEntry (targetName : List UInt8) (c length : ℕ) (s : FatState) : FatState :=
  match s.readDisk s.rootSector with
  | (false, s) => s
  | (true, s) =>
      match freeSlot s.diskBuffer with
      | none => s
      | some i =>
          let s := { s with
            diskBuffer := put s.diskBuffer (32 * i) (dirEntry targetName c length) }
          s.writeSector s.rootSector s.diskBuffer

/-- `fs_write_file_content`. -/
def fsWriteFileContent (filename : List UInt8) (data : Buf) (length : ℕ) (s : FatState) : FatState :=
  match s.readDisk s.fatStartSector with
  | (false, s) => s
  | (true, s) =>
      match freeCluster s.diskBuffer with
      | none => s
      | some c => writeEntry (formatFatName filename) c length (writeBlocks c data length s)

/-! ### Appending -/

/-- How the walk along the FAT ended: at a cluster, on the cycle guard, or not yet. -/
inductive Walk
  | stopped (cluster : ℕ)
  | aborted
  | running
  deriving DecidableEq

/-- The loop of `fs_append_file_content` along the FAT, its guard in 32 bits. -/
def fatWalk (fat : Buf) (maxValidClusters : ℕ) : ℕ → ℕ → ℕ → Walk
  | 0, _, _ => .running
  | fuel + 1, currentCluster, cycleGuard =>
      let next := fatEntry fat currentCluster
      if 2 ≤ next ∧ next < 0x0FFFFFF8 then
        let cycleGuard := (cycleGuard + 1) % 2 ^ 32
        if maxValidClusters < cycleGuard then .aborted
        else fatWalk fat maxValidClusters fuel next cycleGuard
      else .stopped currentCluster

/-- The walk stops at a cluster that has no next one. -/
theorem fatWalk_last {fat : Buf} {maxValidClusters fuel c cycleGuard : ℕ}
    (h : ¬ (2 ≤ fatEntry fat c ∧ fatEntry fat c < 0x0FFFFFF8)) :
    fatWalk fat maxValidClusters (fuel + 1) c cycleGuard = .stopped c := by
  rw [fatWalk, if_neg h]

/-- `fs_append_file_content`; `none` while it is still walking along the FAT. -/
def fsAppendFileContent (fuel : ℕ) (filename : List UInt8) (data : Buf) (length : ℕ) (s : FatState) :
    Option FatState :=
  match s.readDisk s.rootSector with
  | (false, s) => some s
  | (true, s) =>
      match appendSlot s.diskBuffer (formatFatName filename) with
      | none => some (fsWriteFileContent filename data length s)
      | some i =>
          let currentCluster := slotCluster s.diskBuffer i
          let currentSize := slotSize s.diskBuffer i
          match s.readDisk s.fatStartSector with
          | (false, s) => some s
          | (true, s) =>
              match fatWalk s.diskBuffer s.maxValidClusters fuel currentCluster 0 with
              | .running => none
              | .aborted => some s
              | .stopped c =>
                  let targetSector := s.clusterToSector c
                  match s.readWrite targetSector with
                  | (false, s) => some s
                  | (true, s) =>
                      let offset := currentSize % 512
                      let toCopy := min length (512 - offset)
                      let s := { s with
                        writeBuffer := put s.writeBuffer offset (bytesAt data 0 toCopy) }
                      let s := s.writeSector targetSector s.writeBuffer
                      match s.readDisk s.rootSector with
                      | (false, s) => some s
                      | (true, s) =>
                          let s := { s with
                            diskBuffer := put s.diskBuffer (32 * i + 28)
                              (toLE 4 (slotSize s.diskBuffer i + toCopy)) }
                          some (s.writeSector s.rootSector s.diskBuffer)

end Fat32
end AiOsExchange
