/-
# A volume that was not mounted

`fs_fat32_init` of `modules/fs/fat32.c` returns early when the boot sector cannot be read or has no
signature, and nothing looks at that afterwards: the static variables are still zero, and every
sector the operations compute from them is sector 0.

| operation | where it stops before it writes sector 0 |
| --- | --- |
| listing, reading | they do not write |
| a write | sector 0 cannot be read, or has no free entry as a FAT |
| an append to a name that is not there | as a write |
| an append | sector 0 cannot be read, or has a next cluster where the cluster guard of 0 gives up |

In the runs whose requests all stop there, no sector is changed (`unmounted_keeps_disk`).
-/

import AiOsExchange.Fat32.Outcomes
import AiOsExchange.Lib.Run

namespace AiOsExchange
namespace Fat32

open CMemory Runs

/-- The static variables before the volume is mounted. -/
def unmounted : Geometry := ⟨0, 0, 0, 0, 0⟩

/-- **Without a volume every cluster is sector 0.** -/
theorem clusterToSector_unmounted (cluster : ℕ) : unmounted.clusterToSector cluster = 0 := by
  simp [Geometry.clusterToSector, unmounted]

/-- The boot sector cannot be read, or has no signature. -/
def MountFails (s : FatState) : Prop :=
  s.io 0 = false ∨ (s.disk 0).buf 510 ≠ 0x55 ∨ (s.disk 0).buf 511 ≠ 0xAA

/-- **Mounting fails without a trace** but for the buffer. -/
theorem fsFat32Init_of_fails {s : FatState} (h : MountFails s) :
    (fsFat32Init s).toGeometry = s.toGeometry ∧ (fsFat32Init s).disk = s.disk := by
  rw [fsFat32Init]
  cases h0 : s.io 0 with
  | false =>
      rw [s.readDisk_false _ h0]
      exact ⟨rfl, rfl⟩
  | true =>
      have hsig := h.resolve_left (by simp [h0])
      rw [s.readDisk_true _ h0]
      simp only [load_of_lt (show 510 < 512 by omega), load_of_lt (show 511 < 512 by omega),
        if_pos hsig, and_self]

/-- A request to the file system. -/
inductive FsRequest
  | list (buffer : Buf) (maxLen : ℕ)
  | read (filename : List UInt8) (buffer : Buf) (maxLen : ℕ)
  | write (filename : List UInt8) (data : Buf) (length : ℕ)
  | append (fuel : ℕ) (filename : List UInt8) (data : Buf) (length : ℕ)

/-- The file system after the request; an append that is still walking along the FAT has done
nothing yet. -/
def fsStep (s : FatState) : FsRequest → FatState
  | .list buffer maxLen => (fsGetDirList buffer maxLen s).2
  | .read filename buffer maxLen => (fsReadFileContent filename buffer maxLen s).2
  | .write filename data length => fsWriteFileContent filename data length s
  | .append fuel filename data length => (fsAppendFileContent fuel filename data length s).getD s

/-- A write stops: sector 0 cannot be read, or has no free entry. -/
def WriteStops (sector0 : Buf) (readable : Bool) : Prop :=
  readable = false ∨ freeCluster sector0 = none

instance (b : Buf) (r : Bool) : Decidable (WriteStops b r) := inferInstanceAs (Decidable (_ ∨ _))

/-- An append to the file in slot `i` stops: its chain goes on, which the guard does not allow, or
sector 0 cannot be read again. -/
def AppendStops (fat : Buf) (cluster : ℕ) (readable again : Bool) : Prop :=
  readable = false ∨ (2 ≤ fatEntry fat cluster ∧ fatEntry fat cluster < 0x0FFFFFF8) ∨ again = false

instance (b : Buf) (c : ℕ) (r a : Bool) : Decidable (AppendStops b c r a) :=
  inferInstanceAs (Decidable (_ ∨ _))

/-- The request stops before it writes. -/
def WritesNothing (s : FatState) : FsRequest → Prop
  | .list _ _ => True
  | .read _ _ _ => True
  | .write _ _ _ => WriteStops (s.disk 0).buf (s.io 0)
  | .append _ filename _ _ =>
      s.io 0 = false ∨
        if (appendSlot (s.disk 0).buf (formatFatName filename)).isNone then
          WriteStops (s.disk 0).buf (s.io 1)
        else
          AppendStops (load (s.disk 0) s.diskBuffer)
            (slotCluster (s.disk 0).buf
              ((appendSlot (s.disk 0).buf (formatFatName filename)).getD 0)) (s.io 1) (s.io 2)

instance (s : FatState) (r : FsRequest) : Decidable (WritesNothing s r) := by
  cases r <;> unfold WritesNothing <;> infer_instance

section
variable {s : FatState}

/-- The volume and the disk are those of `s`. -/
def Unchanged (s s' : FatState) : Prop := s'.toGeometry = s.toGeometry ∧ s'.disk = s.disk

theorem Unchanged.trans {s s' s'' : FatState} (h : Unchanged s s') (h' : Unchanged s' s'') :
    Unchanged s s'' := ⟨h'.1.trans h.1, h'.2.trans h.2⟩

theorem readDisk_unchanged (n : ℕ) (s : FatState) : Unchanged s (s.readDisk n).2 := by
  rw [FatState.readDisk]
  split_ifs <;> exact ⟨rfl, rfl⟩

theorem list_unchanged (buffer : Buf) (maxLen : ℕ) (s : FatState) :
    Unchanged s (fsGetDirList buffer maxLen s).2 := by
  have h := readDisk_unchanged s.rootSector s
  rw [fsGetDirList]
  rcases hr : s.readDisk s.rootSector with ⟨_ | _, s'⟩ <;> rw [hr] at h <;> exact h

theorem read_unchanged (filename : List UInt8) (buffer : Buf) (maxLen : ℕ) (s : FatState) :
    Unchanged s (fsReadFileContent filename buffer maxLen s).2 := by
  have h := readDisk_unchanged s.rootSector s
  rw [fsReadFileContent]
  rcases hr : s.readDisk s.rootSector with ⟨_ | _, s'⟩ <;> rw [hr] at h
  · exact h
  · simp only
    split_ifs
    · exact h
    · have h' := readDisk_unchanged
        (s'.clusterToSector (readTarget s'.diskBuffer (formatFatName filename)).1) s'
      rcases hr' : s'.readDisk
        (s'.clusterToSector (readTarget s'.diskBuffer (formatFatName filename)).1) with ⟨_ | _, s''⟩ <;>
        rw [hr'] at h' <;> exact h.trans h'

section
variable (hg : s.toGeometry = unmounted)
include hg

theorem rootSector_unmounted : s.rootSector = 0 := by
  rw [Geometry.rootSector, hg, clusterToSector_unmounted]

theorem fatStartSector_unmounted : s.fatStartSector = 0 := by rw [hg]; rfl

theorem write_unchanged {filename : List UInt8} {data : Buf} {length : ℕ}
    (h : WriteStops (s.disk 0).buf (s.io 0)) :
    Unchanged s (fsWriteFileContent filename data length s) := by
  refine ⟨(write_later s).geometry, disk_write_of_stuck ?_⟩
  rw [fatStartSector_unmounted hg]
  exact h

/-- **The guard lets no next cluster pass**, as the volume has none. -/
theorem fatWalk_unmounted {fat : Buf} {fuel c : ℕ}
    (h : 2 ≤ fatEntry fat c ∧ fatEntry fat c < 0x0FFFFFF8) :
    fatWalk fat s.maxValidClusters (fuel + 1) c 0 = .aborted := by
  have hmax : s.maxValidClusters = 0 := by rw [hg]; rfl
  simp only [fatWalk, if_pos h, hmax]
  rw [if_pos (by omega)]

/-- An append to a slot of sector 0. -/
theorem append_slot_unchanged {fuel i : ℕ} {filename : List UInt8} {data : Buf} {length : ℕ}
    (h0 : s.io 0 = true) (hslot : appendSlot (s.disk 0).buf (formatFatName filename) = some i)
    (h : AppendStops (load (s.disk 0) s.diskBuffer) (slotCluster (s.disk 0).buf i) (s.io 1)
      (s.io 2)) :
    Unchanged s ((fsAppendFileContent fuel filename data length s).getD s) := by
  have hi : i < 16 := List.mem_range.1 (List.mem_of_find?_eq_some hslot)
  rw [fsAppendFileContent, rootSector_unmounted hg, s.readDisk_true _ h0]
  simp only [appendSlot_load, hslot, slotCluster_load _ _ hi, fatStartSector_unmounted hg]
  cases h1 : s.io 1 with
  | false =>
      rw [FatState.readDisk_false _ _ (show s.nextIo 0 = false from h1)]
      exact ⟨rfl, rfl⟩
  | true =>
      have h := h.resolve_left (by simp [h1])
      rw [FatState.readDisk_true _ _ (show s.nextIo 0 = true from h1)]
      simp only [load_load]
      cases fuel with
      | zero => exact ⟨rfl, rfl⟩
      | succ fuel =>
          by_cases hnext : 2 ≤ fatEntry (load (s.disk 0) s.diskBuffer) (slotCluster (s.disk 0).buf i) ∧
              fatEntry (load (s.disk 0) s.diskBuffer) (slotCluster (s.disk 0).buf i) < 0x0FFFFFF8
          · rw [fatWalk_unmounted hg hnext]
            exact ⟨rfl, rfl⟩
          · have h2 := h.resolve_left hnext
            rw [fatWalk_last hnext]
            dsimp only
            rw [FatState.readWrite_false _ _ (show s.nextIo (0 + 1) = false from h2)]
            exact ⟨rfl, rfl⟩

theorem append_unchanged {fuel : ℕ} {filename : List UInt8} {data : Buf} {length : ℕ}
    (h : WritesNothing s (.append fuel filename data length)) :
    Unchanged s (fsStep s (.append fuel filename data length)) := by
  rw [fsStep]
  cases h0 : s.io 0 with
  | false =>
      rw [fsAppendFileContent, s.readDisk_false _ h0]
      exact ⟨rfl, rfl⟩
  | true =>
      have h := h.resolve_left (by simp [h0])
      cases hslot : appendSlot (s.disk 0).buf (formatFatName filename) with
      | none =>
          rw [hslot, Option.isNone_none, if_pos rfl] at h
          rw [fsAppendFileContent, rootSector_unmounted hg, s.readDisk_true _ h0]
          simp only [appendSlot_load, hslot, Option.getD_some]
          exact write_unchanged
            (s := { s with diskBuffer := load (s.disk 0) s.diskBuffer, io := s.nextIo }) hg h
      | some i =>
          rw [hslot, Option.isNone_some, if_neg Bool.false_ne_true, Option.getD_some] at h
          exact append_slot_unchanged hg h0 hslot h

/-- **A request that stops leaves volume and disk.** -/
theorem fsStep_unchanged {req : FsRequest} (h : WritesNothing s req) : Unchanged s (fsStep s req) := by
  cases req with
  | list buffer maxLen => exact list_unchanged buffer maxLen s
  | read filename buffer maxLen => exact read_unchanged filename buffer maxLen s
  | write filename data length => exact write_unchanged hg h
  | append fuel filename data length => exact append_unchanged hg h

end

end

/-- **A volume that was not mounted is not written**, in every run whose requests all stop before
they write: for every disk and every outcome of its requests, no sector is changed in any state. -/
theorem unmounted_keeps_disk (s : FatState) (hboot : s.toGeometry = unmounted) (hfails : MountFails s)
    (reqs : List FsRequest) (hstops : StepsMeet fsStep WritesNothing (fsFat32Init s) reqs) :
    ∀ pre, pre <+: reqs → (run fsStep (fsFat32Init s) pre).disk = s.disk := by
  obtain ⟨hgeometry, hdisk⟩ := fsFat32Init_of_fails hfails
  have hstart : (fsFat32Init s).toGeometry = unmounted ∧ (fsFat32Init s).disk = s.disk :=
    ⟨hgeometry.trans hboot, hdisk⟩
  have hstep (t : FatState) (req : FsRequest) (h : t.toGeometry = unmounted ∧ t.disk = s.disk)
      (hok : WritesNothing t req) :
      (fsStep t req).toGeometry = unmounted ∧ (fsStep t req).disk = s.disk := by
    obtain ⟨hg, hd⟩ := fsStep_unchanged h.1 hok
    exact ⟨hg.trans h.1, hd.trans h.2⟩
  intro pre hpre
  exact (run_invariant hstep hstart (hstops.of_isPrefix hpre)).2

/-- A disk of sectors full of one byte, without a signature. -/
def plainDisk (b : UInt8) : FatState where
  toGeometry := unmounted
  diskBuffer := fun _ => 0
  writeBuffer := fun _ => 0
  disk := fun _ _ => b
  io := fun _ => true

/-- A disk of ones has no free FAT entry. -/
theorem full_disk_kept :
    (run fsStep (fsFat32Init (plainDisk 0xFF)) [.write (ascii "A") (fun _ => 7) 1]).disk =
      (plainDisk 0xFF).disk :=
  unmounted_keeps_disk (plainDisk 0xFF) rfl (.inr (by decide)) [.write (ascii "A") (fun _ => 7) 1]
    (by decide +kernel) _ List.prefix_rfl

/-- **A write to a disk of zeros goes over sector 0.** -/
theorem zero_disk_written : MountFails (plainDisk 0) ∧
    (run fsStep (fsFat32Init (plainDisk 0)) [.write (ascii "A") (fun _ => 7) 1]).disk ≠
      (plainDisk 0).disk := by
  refine ⟨.inr (by decide), fun h => ?_⟩
  have hbyte : (run fsStep (fsFat32Init (plainDisk 0)) [.write (ascii "A") (fun _ => 7) 1]).disk 0 0 =
      7 := by
    decide +kernel
  rw [h] at hbyte
  exact absurd hbyte (by decide)

end Fat32
end AiOsExchange
