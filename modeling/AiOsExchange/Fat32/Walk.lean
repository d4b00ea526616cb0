/-
# The walk along the FAT

`fs_append_file_content` of `modules/fs/fat32.c` looks for the last cluster of a file in the one FAT
sector it has loaded, 128 entries, and counts its steps in 32 bits against `max_valid_clusters`.

| the walk needs | for |
| --- | --- |
| clusters below 128 | the entries it reads |
| at most `max_valid_clusters` links | the last cluster |
| `max_valid_clusters` below 2³² - 1 | an end on a cycle |

The boot sector and the FAT give any of these and their negations.  With all three the walk does
what a walk along the chain on disk has to do, and only then (`walkSafe_iff`).
-/

import AiOsExchange.Fat32.Mount
import AiOsExchange.Fat32.Unique

namespace AiOsExchange
namespace Fat32

open CMemory Chains

/-! ### What the loop reads -/

/-- The successor of a cluster as the loaded sector has it; from 128 on that is the memory behind the
sector. -/
def loadedNext (fat : Buf) (c : ℕ) : Option ℕ :=
  if 2 ≤ fatEntry fat c ∧ fatEntry fat c < 0x0FFFFFF8 then some (fatEntry fat c) else none

/-- The indices at which the loop of `fatWalk` reads `fat_table`. -/
def walkIndices (fat : Buf) (maxValidClusters : ℕ) : ℕ → ℕ → ℕ → List ℕ
  | 0, _, _ => []
  | fuel + 1, currentCluster, cycleGuard =>
      let next := fatEntry fat currentCluster
      currentCluster ::
        if 2 ≤ next ∧ next < 0x0FFFFFF8 then
          let cycleGuard := (cycleGuard + 1) % 2 ^ 32
          if maxValidClusters < cycleGuard then []
          else walkIndices fat maxValidClusters fuel next cycleGuard
        else []

/-- The guard lets the walk come to step `n`. -/
def GuardAllows (maxValidClusters n : ℕ) : Prop :=
  n ≤ maxValidClusters ∨ maxValidClusters + 1 = 2 ^ 32

theorem GuardAllows.mono {maxValidClusters m n : ℕ} (h : GuardAllows maxValidClusters n)
    (hmn : m ≤ n) : GuardAllows maxValidClusters m := by
  rcases h with h | h
  · exact .inl (Nat.le_trans hmn h)
  · exact .inr h

section
variable {fat : Buf} {maxValidClusters fuel c d g k : ℕ}

theorem fatWalk_none (h : loadedNext fat c = none) :
    fatWalk fat maxValidClusters (fuel + 1) c g = .stopped c := by
  refine fatWalk_last fun hlink => ?_
  rw [loadedNext, if_pos hlink] at h
  exact Option.some_ne_none _ h

/-- One step of the loop. -/
theorem fatWalk_some (h : loadedNext fat c = some d) :
    fatWalk fat maxValidClusters (fuel + 1) c g =
      (if maxValidClusters < (g + 1) % 2 ^ 32 then .aborted
        else fatWalk fat maxValidClusters fuel d ((g + 1) % 2 ^ 32)) ∧
    walkIndices fat maxValidClusters (fuel + 1) c g =
      c :: (if maxValidClusters < (g + 1) % 2 ^ 32 then []
        else walkIndices fat maxValidClusters fuel d ((g + 1) % 2 ^ 32)) := by
  rw [loadedNext] at h
  split_ifs at h with hlink
  obtain rfl := Option.some.inj h
  rw [fatWalk, walkIndices, if_pos hlink, if_pos hlink]
  exact ⟨rfl, rfl⟩

/-- More fuel does not change how a walk ends. -/
theorem fatWalk_more (h : fatWalk fat maxValidClusters fuel c g ≠ .running) (m : ℕ) :
    fatWalk fat maxValidClusters (fuel + m) c g = fatWalk fat maxValidClusters fuel c g := by
  induction fuel generalizing c g with
  | zero => exact absurd rfl h
  | succ fuel ih =>
      rw [Nat.add_right_comm]
      cases hb : loadedNext fat c with
      | none => rw [fatWalk_none hb, fatWalk_none hb]
      | some b =>
          rw [(fatWalk_some hb).1] at h ⊢
          rw [(fatWalk_some hb).1]
          split_ifs at h ⊢ with hstop
          · rfl
          · exact ih h

/-- What the guard does in a step. -/
theorem guard_step (hmax : maxValidClusters < 2 ^ 32) {n : ℕ}
    (h : GuardAllows maxValidClusters (g + (n + 1))) :
    ¬ maxValidClusters < (g + 1) % 2 ^ 32 ∧
      GuardAllows maxValidClusters ((g + 1) % 2 ^ 32 + n) := by
  rcases h with h | h
  · rw [Nat.mod_eq_of_lt (by omega)]
    exact ⟨by omega, .inl (by omega)⟩
  · have := Nat.mod_lt (g + 1) (show 0 < 2 ^ 32 by decide)
    exact ⟨by omega, .inr h⟩

/-- **The loop comes to the cluster `k` steps on**, if the guard allows it. -/
theorem fatWalk_path (hmax : maxValidClusters < 2 ^ 32) (hpath : path (loadedNext fat) c k = some d)
    (hguard : GuardAllows maxValidClusters (g + k)) :
    d ∈ walkIndices fat maxValidClusters (k + 1) c g ∧
      (loadedNext fat d = none → fatWalk fat maxValidClusters (k + 1) c g = .stopped d) := by
  induction k generalizing c g with
  | zero =>
      obtain rfl := Option.some.inj hpath
      exact ⟨List.mem_cons_self, fatWalk_none⟩
  | succ k ih =>
      rw [path_succ'] at hpath
      obtain ⟨b, hb, hrest⟩ := Option.bind_eq_some_iff.1 hpath
      obtain ⟨hstay, hguard⟩ := guard_step hmax hguard
      obtain ⟨hmem, hstop⟩ := ih hrest hguard
      rw [(fatWalk_some hb).1, (fatWalk_some hb).2, if_neg hstay, if_neg hstay]
      exact ⟨List.mem_cons_of_mem _ hmem, hstop⟩

/-- **It comes to no other.** -/
theorem path_of_mem_walkIndices {i : ℕ} (hmax : maxValidClusters < 2 ^ 32) (hg : g ≤ maxValidClusters)
    (h : i ∈ walkIndices fat maxValidClusters fuel c g) :
    ∃ k, path (loadedNext fat) c k = some i ∧ GuardAllows maxValidClusters (g + k) := by
  induction fuel generalizing c g with
  | zero => exact absurd h List.not_mem_nil
  | succ fuel ih =>
      cases hb : loadedNext fat c with
      | none =>
          rw [loadedNext] at hb
          split_ifs at hb with hlink
          rw [walkIndices, if_neg hlink, List.mem_singleton] at h
          exact ⟨0, by rw [path, h], .inl hg⟩
      | some b =>
          rw [(fatWalk_some hb).2] at h
          rcases List.mem_cons.1 h with rfl | h
          · exact ⟨0, rfl, .inl hg⟩
          · split_ifs at h with hstop
            · exact absurd h List.not_mem_nil
            · obtain ⟨k, hpath, hk⟩ := ih (by omega) h
              refine ⟨k + 1, by rw [path_succ', hb, Option.bind_some, hpath], ?_⟩
              rcases hk with hk | hk
              · rcases Nat.lt_or_ge (g + 1) (2 ^ 32) with hlt | hge
                · rw [Nat.mod_eq_of_lt hlt] at hk
                  exact .inl (by omega)
                · exact .inr (by omega)
              · exact .inr hk

/-- **On a path that is too long the guard ends the loop.** -/
theorem fatWalk_aborted (hmax : maxValidClusters + 1 < 2 ^ 32) (hg : g + k = maxValidClusters)
    (hpath : path (loadedNext fat) c (k + 1) ≠ none) :
    fatWalk fat maxValidClusters (k + 1) c g = .aborted := by
  induction k generalizing c g with
  | zero =>
      rw [path_succ'] at hpath
      cases hb : loadedNext fat c with
      | none => exact absurd (by rw [hb]; rfl) hpath
      | some b =>
          rw [(fatWalk_some hb).1, Nat.mod_eq_of_lt (by omega), if_pos (by omega)]
  | succ k ih =>
      rw [path_succ'] at hpath
      cases hb : loadedNext fat c with
      | none => exact absurd (by rw [hb]; rfl) hpath
      | some b =>
          rw [hb, Option.bind_some] at hpath
          rw [(fatWalk_some hb).1, Nat.mod_eq_of_lt (by omega), if_neg (by omega)]
          exact ih (by omega) hpath

/-- **A guard of 2³² - 1 is never passed**, so a path without an end keeps the loop going. -/
theorem fatWalk_running (hmax : maxValidClusters + 1 = 2 ^ 32)
    (hpath : ∀ k, path (loadedNext fat) c k ≠ none) :
    fatWalk fat maxValidClusters fuel c g = .running := by
  induction fuel generalizing c g with
  | zero => rfl
  | succ fuel ih =>
      cases hb : loadedNext fat c with
      | none => exact absurd (by rw [path_succ', hb]; rfl) (hpath 1)
      | some b =>
          have hlt := Nat.mod_lt (g + 1) (show 0 < 2 ^ 32 by decide)
          rw [(fatWalk_some hb).1, if_neg (by omega)]
          refine ih fun k => ?_
          have := hpath (k + 1)
          rwa [path_succ', hb, Option.bind_some] at this

end

/-! ### Along the chain on disk -/

namespace FatState

/-- How many bytes an append to slot `i` copies. -/
def copied (s : FatState) (i length : ℕ) : ℕ := min length (512 - slotSize s.rootDir i % 512)

/-- The disk once the data is stored in the first sector of cluster `c`. -/
def afterStore (s : FatState) (i c : ℕ) (data : Buf) (length : ℕ) : ℕ → Sector :=
  let targetSector := s.clusterToSector c
  if s.io 3 then
    Function.update s.disk targetSector
      ((s.disk targetSector).put (slotSize s.rootDir i % 512) (bytesAt data 0 (s.copied i length)))
  else s.disk

/-- The disk after an append to slot `i` whose walk stopped at cluster `c`. -/
def appendDisk (s : FatState) (i c : ℕ) (data : Buf) (length : ℕ) : ℕ → Sector :=
  let disk := s.afterStore i c data length
  if s.io 2 then
    if s.io 4 && s.io 5 then
      Function.update disk s.rootSector
        (toSector (Appendable.resized (disk s.rootSector).buf i
          (slotSize (disk s.rootSector).buf i + s.copied i length)))
    else disk
  else s.disk

section
variable {s : FatState} {c n : ℕ} (i : ℕ) (data : Buf) (length : ℕ)

theorem afterStore_of_ne (hn : n ≠ s.clusterToSector c) :
    s.afterStore i c data length n = s.disk n := by
  rw [afterStore]
  split_ifs
  · exact Function.update_of_ne hn _ _
  · rfl

theorem appendDisk_of_ne (hn : n ≠ s.clusterToSector c) (hroot : n ≠ s.rootSector) :
    s.appendDisk i c data length n = s.disk n := by
  rw [appendDisk]
  split_ifs
  · exact (Function.update_of_ne hroot _ _).trans (afterStore_of_ne i data length hn)
  · exact afterStore_of_ne i data length hn
  · rfl

/-- The root sector has another size in the slot, if it is not what the data is stored in. -/
theorem appendDisk_root (hc : s.rootSector ≠ s.clusterToSector c) :
    s.appendDisk i c data length s.rootSector = s.disk s.rootSector ∨
      ∃ v, s.appendDisk i c data length s.rootSector = toSector (Appendable.resized s.rootDir i v) := by
  have hstore := afterStore_of_ne i data length hc
  rw [appendDisk]
  split_ifs
  · refine .inr ⟨slotSize s.rootDir i + s.copied i length, ?_⟩
    rw [Function.update_self, hstore]
    rfl
  · exact .inl hstore
  · exact .inl rfl

/-- The data is stored where the walk stopped, if that is not the root sector. -/
theorem appendDisk_target (h2 : s.io 2 = true) (h3 : s.io 3 = true)
    (hc : s.clusterToSector c ≠ s.rootSector) :
    s.appendDisk i c data length (s.clusterToSector c) =
      (s.disk (s.clusterToSector c)).put (slotSize s.rootDir i % 512)
        (bytesAt data 0 (s.copied i length)) := by
  have hstore : s.afterStore i c data length (s.clusterToSector c) =
      (s.disk (s.clusterToSector c)).put (slotSize s.rootDir i % 512)
        (bytesAt data 0 (s.copied i length)) := by
    rw [afterStore, if_pos h3]
    exact Function.update_self _ _ _
  rw [appendDisk, if_pos h2]
  split_ifs
  · exact (Function.update_of_ne hc _ _).trans hstore
  · exact hstore

end

end FatState

/-- The FAT data that an append has loaded. -/
def FatState.loadedFat (s : FatState) : Buf := load (s.disk s.fatStartSector) s.diskBuffer

/-- The volume is mounted: its variables are from a boot sector that could be read and has the
signature. -/
def FatState.Mounted (s : FatState) : Prop :=
  ∃ boot : FatState, ¬ MountFails boot ∧ s.toGeometry = (fsFat32Init boot).toGeometry

/-- What is wanted of the walk from cluster `c`. -/
structure FatState.WalkSafe (s : FatState) (c : ℕ) : Prop where
  terminates : ∃ fuel, fatWalk s.loadedFat s.maxValidClusters fuel c 0 ≠ .running
  inside : ∀ fuel, ∀ i ∈ walkIndices s.loadedFat s.maxValidClusters fuel c 0, i < 128
  last : ∀ (chain : List ℕ) (h : Chain s.next c chain),
    0x0FFFFFF8 ≤ s.entry (chain.getLast h.ne_nil) →
      ∃ fuel, fatWalk s.loadedFat s.maxValidClusters fuel c 0 = .stopped (chain.getLast h.ne_nil)
  cyclic : Cyclic s.next c → ∀ filename data length slot,
    appendSlot (s.disk s.rootSector).buf (formatFatName filename) = some slot →
    slotCluster (s.disk s.rootSector).buf slot = c →
      ∃ fuel s', fsAppendFileContent fuel filename data length s = some s' ∧ s'.disk = s.disk

/-- The chain on disk is in the first FAT sector as far as the guard lets the walk come, and the
guard is right for it. -/
structure FatState.WalkFits (s : FatState) (c : ℕ) : Prop where
  low : ∀ k ≤ s.maxValidClusters, ∀ d, path s.next c k = some d → d < 128
  short : ∀ (chain : List ℕ) (h : Chain s.next c chain),
    0x0FFFFFF8 ≤ s.entry (chain.getLast h.ne_nil) → chain.length ≤ s.maxValidClusters + 1
  guarded : Cyclic s.next c → s.maxValidClusters + 1 ≠ 2 ^ 32

section
variable {s : FatState} {c d k : ℕ}

theorem FatState.Mounted.maxValidClusters_lt (h : s.Mounted) : s.maxValidClusters < 2 ^ 32 := by
  obtain ⟨boot, hboot, hg⟩ := h
  have hmax : s.maxValidClusters = (fsFat32Init boot).maxValidClusters := by rw [hg]
  rw [hmax, fsFat32Init_of_not_fails hboot]
  exact Fat32Bpb.maxValidClusters_lt (totalSectors_lt _)

/-- In the first FAT sector the loaded successors are those on disk. -/
theorem loadedNext_eq (s : FatState) (hlow : c < 128) : loadedNext s.loadedFat c = s.next c := by
  have hentry : s.entry c = fatEntry s.loadedFat c := by
    rw [FatState.entry, Nat.div_eq_of_lt hlow, Nat.mod_eq_of_lt hlow, Nat.add_zero]
    exact fatEntry_congr (fun _ hk => (load_of_lt hk).symm) hlow
  rw [loadedNext, FatState.next, hentry]

/-- **While the chain on disk is in the first FAT sector, the walk follows it.** -/
theorem path_loadedNext {n : ℕ} (hlow : ∀ k < n, ∀ d, path s.next c k = some d → d < 128)
    (hk : k ≤ n) : path (loadedNext s.loadedFat) c k = path s.next c k :=
  path_congr (fun j hj d hd => loadedNext_eq s (hlow j hj d hd)) hk

/-- It follows the chain also while its indices are inside of what was loaded. -/
theorem path_of_inside (hmax : s.maxValidClusters < 2 ^ 32)
    (hinside : ∀ fuel, ∀ i ∈ walkIndices s.loadedFat s.maxValidClusters fuel c 0, i < 128)
    (hguard : GuardAllows s.maxValidClusters k) :
    path (loadedNext s.loadedFat) c k = path s.next c k ∧
      ∀ d, path s.next c k = some d → d < 128 := by
  have hread (j : ℕ) (hj : GuardAllows s.maxValidClusters j) (d : ℕ)
      (hd : path (loadedNext s.loadedFat) c j = some d) : d < 128 :=
    hinside _ d (fatWalk_path hmax hd (by rwa [Nat.zero_add])).1
  have hfollow : ∀ j < k, ∀ d, path (loadedNext s.loadedFat) c j = some d →
      s.next d = loadedNext s.loadedFat d := by
    intro j hj d hd
    exact (loadedNext_eq s (hread j (hguard.mono (Nat.le_of_lt hj)) d hd)).symm
  have hpath : path s.next c k = path (loadedNext s.loadedFat) c k :=
    path_congr hfollow (Nat.le_refl k)
  exact ⟨hpath.symm, fun d hd => hread k hguard d (hpath ▸ hd)⟩

/-- **The outcome of an append** to the file in slot `i`. -/
theorem append_disk (fuel : ℕ) (data : Buf) (length : ℕ) {filename : List UInt8} {i : ℕ}
    (h0 : s.io 0 = true) (hslot : appendSlot s.rootDir (formatFatName filename) = some i) :
    (fsAppendFileContent fuel filename data length s).map (·.disk) =
      if s.io 1 then
        match fatWalk s.loadedFat s.maxValidClusters fuel (slotCluster s.rootDir i) 0 with
        | .running => none
        | .aborted => some s.disk
        | .stopped c => some (s.appendDisk i c data length)
      else some s.disk := by
  have hi : i < 16 := List.mem_range.1 (List.mem_of_find?_eq_some hslot)
  have hslot' : appendSlot (load (s.disk s.rootSector) s.diskBuffer) (formatFatName filename) =
      some i := (appendSlot_load _ _ _).trans hslot
  rw [fsAppendFileContent, s.readDisk_true _ h0]
  simp only [hslot', slotCluster_load _ _ hi, slotSize_load _ _ hi]
  cases h1 : s.io 1 with
  | false =>
      rw [FatState.readDisk_false _ _ (show s.nextIo 0 = false from h1)]
      rfl
  | true =>
      rw [FatState.readDisk_true _ _ (show s.nextIo 0 = true from h1)]
      simp only [load_load, if_true]
      rw [show s.loadedFat = load (s.disk s.fatStartSector) s.diskBuffer from rfl,
        show slotCluster s.rootDir i = slotCluster (s.disk s.rootSector).buf i from rfl]
      cases fatWalk (load (s.disk s.fatStartSector) s.diskBuffer) s.maxValidClusters fuel
          (slotCluster (s.disk s.rootSector).buf i) 0 with
      | running => rfl
      | aborted => rfl
      | stopped c =>
          simp only
          cases h2 : s.io 2 with
          | false =>
              rw [FatState.readWrite_false _ _ (show s.nextIo (0 + 1) = false from h2)]
              rw [FatState.appendDisk, if_neg (by simp [h2]), Option.map_some]
          | true =>
              rw [FatState.readWrite_true _ _ (show s.nextIo (0 + 1) = true from h2)]
              rw [FatState.appendDisk, if_pos h2]
              simp only
              -- `u` is the state once the data sector is stored
              generalize hu : FatState.writeSector (s.clusterToSector c) _ _ = u
              have hgeo : u.toGeometry = s.toGeometry := by rw [← hu]; rfl
              have hio (n : ℕ) : u.io n = s.io (n + 4) := by rw [← hu]; rfl
              have hdisk : u.disk = s.afterStore i c data length := by
                rw [← hu]
                simp only [FatState.writeSector, FatState.nextIo, Nat.zero_add, toSector_put_load]
                rfl
              rw [← hdisk]
              cases h4 : s.io 4 with
              | false =>
                  rw [u.readDisk_false _ ((hio 0).trans h4)]
                  simp
              | true =>
                  rw [u.readDisk_true _ ((hio 0).trans h4)]
                  have h5 : u.nextIo 0 = s.io 5 := hio 1
                  simp only [Bool.true_and, Option.map_some, FatState.writeSector, h5, hgeo,
                    slotSize_load _ _ hi, toSector_put_load]
                  cases s.io 5 <;> rfl

/-- An append whose walk stops. -/
theorem append_of_stopped (data : Buf) (length : ℕ) {filename : List UInt8} {i fuel : ℕ}
    (h0 : s.io 0 = true) (h1 : s.io 1 = true)
    (hslot : appendSlot s.rootDir (formatFatName filename) = some i)
    (hwalk : fatWalk s.loadedFat s.maxValidClusters fuel (slotCluster s.rootDir i) 0 = .stopped c) :
    ∃ s', fsAppendFileContent fuel filename data length s = some s' ∧
      s'.disk = s.appendDisk i c data length := by
  have h := append_disk fuel data length h0 hslot
  rw [if_pos h1, hwalk] at h
  obtain ⟨s', hs', hdisk⟩ := Option.map_eq_some_iff.1 h
  exact ⟨s', hs', hdisk⟩

/-- An append whose walk gives up changes nothing. -/
theorem append_of_aborted {filename : List UInt8} {data : Buf} {length i fuel : ℕ}
    (hslot : appendSlot s.rootDir (formatFatName filename) = some i)
    (hwalk : fatWalk s.loadedFat s.maxValidClusters fuel (slotCluster s.rootDir i) 0 = .aborted) :
    ∃ s', fsAppendFileContent fuel filename data length s = some s' ∧ s'.disk = s.disk := by
  cases h0 : s.io 0 with
  | false =>
      refine ⟨{ s with io := s.nextIo }, ?_, rfl⟩
      rw [fsAppendFileContent, s.readDisk_false _ h0]
  | true =>
      have h := append_disk fuel data length h0 hslot
      rw [hwalk] at h
      simp only [ite_self] at h
      obtain ⟨s', hs', hdisk⟩ := Option.map_eq_some_iff.1 h
      exact ⟨s', hs', hdisk⟩

/-- A path through the first FAT sector ends or comes back within 128 steps. -/
theorem cyclic_of_low {next : ℕ → Option ℕ}
    (h : ∀ k ≤ 128, ∃ d, path next c k = some d ∧ d < 128) : Cyclic next c := by
  refine cyclic_of_path (t := Finset.range 128) fun k hk => ?_
  rw [Finset.card_range] at hk
  obtain ⟨d, hd, hlt⟩ := h k hk
  exact ⟨d, Finset.mem_range.2 hlt, hd⟩

/-- Where the chain fits, the guard allows the walk what the chain on disk has. -/
theorem FatState.WalkFits.low_of_allows (h : s.WalkFits c) (hg : GuardAllows s.maxValidClusters k)
    (hd : path s.next c k = some d) : d < 128 := by
  rcases hg with hg | hg
  · exact h.low k hg d hd
  · rcases Nat.lt_or_ge s.maxValidClusters k with hlt | hge
    · refine absurd hg (h.guarded (cyclic_of_low fun j hj => ?_))
      have hsome : path s.next c j ≠ none := fun hn => by
        rw [path_eq_none hn (by omega)] at hd
        exact Option.some_ne_none d hd.symm
      obtain ⟨e, he⟩ := Option.ne_none_iff_exists'.1 hsome
      exact ⟨e, he, h.low j (by omega) e he⟩
    · exact h.low k hge d hd

/-- **Where the chain fits, the walk is safe and right.** -/
theorem FatState.WalkFits.walkSafe (hmax : s.maxValidClusters < 2 ^ 32) (h : s.WalkFits c) :
    s.WalkSafe c := by
  have hfollow {k : ℕ} (hk : k ≤ s.maxValidClusters + 1) :
      path (loadedNext s.loadedFat) c k = path s.next c k :=
    path_loadedNext (fun j hj => h.low j (by omega)) hk
  have hinside : ∀ fuel, ∀ i ∈ walkIndices s.loadedFat s.maxValidClusters fuel c 0, i < 128 := by
    intro fuel i hi
    obtain ⟨k, hpath, hk⟩ := path_of_mem_walkIndices hmax (Nat.zero_le _) hi
    rw [Nat.zero_add] at hk
    have heq : path (loadedNext s.loadedFat) c k = path s.next c k :=
      path_loadedNext (fun j hj d hd => h.low_of_allows (hk.mono (Nat.le_of_lt hj)) hd)
        (Nat.le_refl k)
    exact h.low_of_allows hk (heq ▸ hpath)
  by_cases hend : ∃ k ≤ s.maxValidClusters, ∃ d, path s.next c k = some d ∧ s.next d = none
  · -- the chain ends where the guard lets the walk come
    obtain ⟨k, hk, d, hd, hlast⟩ := hend
    have hlow := h.low k hk d hd
    have hstop : fatWalk s.loadedFat s.maxValidClusters (k + 1) c 0 = .stopped d :=
      (fatWalk_path hmax ((hfollow (by omega)).trans hd) (.inl (by omega))).2
        ((loadedNext_eq s hlow).trans hlast)
    refine ⟨⟨k + 1, by simp [hstop]⟩, hinside, fun chain hchain _ => ?_, fun hcyc => ?_⟩
    · obtain ⟨l, hl, hlk, hlen⟩ := exists_chain hd hlast
      obtain rfl := hl.unique hchain
      refine ⟨k + 1, hstop.trans ?_⟩
      have hget : l.getLast hl.ne_nil = d := by
        rw [List.getLast_eq_getElem]
        simp only [hlen, Nat.add_sub_cancel]
        exact (List.getElem?_eq_some_iff.1 hlk).2
      rw [hget]
    · obtain ⟨l, hl, -⟩ := exists_chain hd hlast
      exact absurd hl (hcyc.not_chain l)
  · -- the chain goes on where the guard ends the walk
    have hgo (k : ℕ) (hk : k ≤ s.maxValidClusters + 1) : path s.next c k ≠ none := by
      induction k with
      | zero => exact Option.some_ne_none c
      | succ k ih =>
          obtain ⟨d, hd⟩ := Option.ne_none_iff_exists'.1 (ih (by omega))
          rw [path, hd, Option.bind_some]
          exact fun hn => hend ⟨k, by omega, d, hd, hn⟩
    have hne : s.maxValidClusters + 1 ≠ 2 ^ 32 := by
      intro heq
      refine h.guarded (cyclic_of_low fun k hk => ?_) heq
      obtain ⟨d, hd⟩ := Option.ne_none_iff_exists'.1 (hgo k (by omega))
      exact ⟨d, hd, h.low k (by omega) d hd⟩
    have habort : fatWalk s.loadedFat s.maxValidClusters (s.maxValidClusters + 1) c 0 = .aborted :=
      fatWalk_aborted (by omega) (Nat.zero_add _) (by
        rw [hfollow (Nat.le_refl _)]
        exact hgo _ (Nat.le_refl _))
    refine ⟨⟨_, by rw [habort]; simp⟩, hinside, fun chain hchain heoc => ?_,
      fun _ filename data length slot hslot hcluster => ?_⟩
    · refine absurd ?_ (hgo _ (Nat.le_refl _))
      rw [hchain.path_eq, List.getElem?_eq_none (h.short chain hchain heoc)]
    · exact ⟨_, append_of_aborted hslot (by
        rw [show slotCluster s.rootDir slot = c from hcluster]; exact habort)⟩

/-- **The walk is safe and right** if and only if the chain on disk keeps to the first FAT sector as
far as the guard lets the walk come, is no longer than the guard where it ends, and does not come
back where the guard is 2³² - 1. -/
theorem walkSafe_iff (hm : s.Mounted) : s.WalkSafe c ↔ s.WalkFits c := by
  have hmax := hm.maxValidClusters_lt
  constructor
  · intro h
    have hpath {k : ℕ} (hk : GuardAllows s.maxValidClusters k) :=
      path_of_inside hmax h.inside hk
    refine ⟨fun k hk d hd => (hpath (.inl hk)).2 d hd, fun chain hchain heoc => ?_,
      fun hcyc heq => ?_⟩
    · -- a longer chain: the guard ends the walk before its last cluster
      by_contra hlong
      obtain ⟨fuel, hfuel⟩ := h.last chain hchain heoc
      have hgo {k : ℕ} (hk : k ≤ s.maxValidClusters + 1) : path s.next c k ≠ none := by
        rw [hchain.path_eq, List.getElem?_eq_getElem (by omega)]
        exact Option.some_ne_none _
      have hne : s.maxValidClusters + 1 ≠ 2 ^ 32 := by
        intro heq
        refine (cyclic_of_low fun k hk => ?_).not_chain chain hchain
        obtain ⟨d, hd⟩ := Option.ne_none_iff_exists'.1 (hgo (show k ≤ _ by omega))
        exact ⟨d, hd, (hpath (.inl (by omega))).2 d hd⟩
      have hlow : ∀ k < s.maxValidClusters + 1, ∀ d, path s.next c k = some d → d < 128 :=
        fun k hk => (hpath (.inl (by omega))).2
      have habort : fatWalk s.loadedFat s.maxValidClusters (s.maxValidClusters + 1) c 0 =
          .aborted := by
        refine fatWalk_aborted (by omega) (Nat.zero_add _) ?_
        rw [path_loadedNext hlow (Nat.le_refl _)]
        exact hgo (Nat.le_refl _)
      have h1 := fatWalk_more (by rw [habort]; simp) fuel
      have h2 := fatWalk_more (by rw [hfuel]; simp) (s.maxValidClusters + 1)
      rw [Nat.add_comm, h2, hfuel, habort] at h1
      simp at h1
    · -- a guard of 2³² - 1 on a cycle: the loop goes on
      obtain ⟨fuel, hfuel⟩ := h.terminates
      refine hfuel (fatWalk_running heq fun k => ?_)
      rw [(hpath (.inr heq)).1]
      exact hcyc.path_ne_none k
  · exact fun h => h.walkSafe hmax

end

/-! ### A chain outside of the first FAT sector -/

/-- The boot sector of a volume of 1000 clusters of one sector, with two FAT sectors. -/
def farBoot : FatState where
  toGeometry := unmounted
  diskBuffer := fun _ => 0
  writeBuffer := fun _ => 0
  disk := fun _ => toSector (put (put (put (fun _ => 0) 11 [0, 2, 1, 1, 0, 1]) 32
    ([0xE8, 3, 0, 0] ++ [2, 0, 0, 0] ++ [0, 0, 0, 0] ++ [2, 0, 0, 0])) 510 [0x55, 0xAA])
  io := fun _ => true

/-- A file in cluster 128 alone, which has an end-of-chain mark in the second FAT sector; the byte
behind the buffer of the first one is 3. -/
def farVolume : FatState where
  toGeometry := ⟨512, 1, 3, 2, 1000⟩
  diskBuffer := fun k => if k = 512 then 3 else 0
  writeBuffer := fun _ => 0
  disk := fun n =>
    if n = 1 then toSector (put (fun _ => 0) 0 (List.replicate 16 0xFF))
    else if n = 2 then toSector (put (fun _ => 0) 0 (List.replicate 4 0xFF))
    else if n = 3 then toSector (withEntry (fun _ => 0) 0 (formatFatName [65]) 128 0)
    else fun _ => 0
  io := fun _ => true

theorem farVolume_mounted : farVolume.Mounted := by
  refine ⟨farBoot, ?_, ?_⟩
  · rw [MountFails]
    decide
  · decide

theorem farVolume_next : farVolume.next 3 = none ∧ farVolume.next 128 = none := by decide

/-- The file in cluster 3 is walked along as on disk. -/
theorem near_chain_safe : farVolume.WalkSafe 3 := by
  have hchain : Chain farVolume.next 3 [3] := .last farVolume_next.1
  refine (walkSafe_iff farVolume_mounted).2 ⟨fun k _ d hd => ?_, fun chain h _ => ?_, fun hcyc => ?_⟩
  · rw [hchain.path_eq] at hd
    obtain rfl := List.mem_singleton.1 (List.mem_of_getElem? hd)
    decide
  · rw [h.unique hchain]
    decide
  · exact absurd hchain (hcyc.not_chain _)

/-- The walk for the file in cluster 128 stops at cluster 3. -/
theorem far_chain_missed :
    farVolume.Mounted ∧ slotCluster farVolume.rootDir 0 = 128 ∧ Chain farVolume.next 128 [128] ∧
      0x0FFFFFF8 ≤ farVolume.entry 128 ∧
      fatWalk farVolume.loadedFat farVolume.maxValidClusters 2 128 0 = .stopped 3 ∧
      ¬ farVolume.WalkSafe 128 := by
  refine ⟨farVolume_mounted, by decide, .last farVolume_next.2, by decide, by decide, fun h => ?_⟩
  exact absurd (h.inside 1 128 (by decide)) (by decide)

end Fat32
end AiOsExchange
