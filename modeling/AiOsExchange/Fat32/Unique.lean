/-
# Names in the root directory

`fs_write_file_content` of `modules/fs/fat32.c` never looks for the name it enters: a second write
of a name makes a second entry (`second_write_doubles`), which a read does not find.  What becomes
of the first sector of the root directory is one of three things (`RootStep`): it stays, a free slot
is filled, or the size in one slot changes.  So the names stay unique in the runs whose steps keep
data out of that sector and enter a name only if no other slot in use has it (`names_unique`).

A slot that takes the place of the end mark brings back the entries behind it up to the next one;
`Beside` counts these among the slots in use.
-/

import AiOsExchange.Fat32.Append
import AiOsExchange.Fat32.ReadBack
import AiOsExchange.Fat32.Unmounted

namespace AiOsExchange
namespace Fat32

open CMemory Runs

/-! ### Slots in use -/

/-- Slot `i` is in use: before the end mark, not deleted, and no part of a long name. -/
structure LiveSlot (dir : Buf) (i : ℕ) : Prop where
  lt : i < 16
  shown : ∀ j ≤ i, dir (32 * j) ≠ 0
  kept : dir (32 * i) ≠ 0xE5
  short : dir (32 * i + 11) ≠ 0x0F

/-- No two slots in use have the same name. -/
def UniqueNames (dir : Buf) : Prop :=
  ∀ i j, LiveSlot dir i → LiveSlot dir j → slotName dir i = slotName dir j → i = j

/-- Slot `j` is in use once slot `i` is filled, and is another one. -/
structure Beside (dir : Buf) (i j : ℕ) : Prop where
  ne : j ≠ i
  lt : j < 16
  shown : ∀ k ≤ j, k ≠ i → dir (32 * k) ≠ 0
  kept : dir (32 * j) ≠ 0xE5
  short : dir (32 * j + 11) ≠ 0x0F

/-- A name can be entered in slot `i`: it is on no other slot that is in use then, and these have
different names.  What begins with the mark of a deleted entry is not in use. -/
structure FitsSlot (dir : Buf) (i : ℕ) (target : List UInt8) : Prop where
  new : target.head? ≠ some 0xE5 → ∀ j, Beside dir i j → slotName dir j ≠ target
  others : ∀ j k, Beside dir i j → Beside dir i k → slotName dir j = slotName dir k → j = k

section
variable {dir dir' : Buf} {i j c length v : ℕ} {target : List UInt8}

theorem LiveSlot.congr (h : ∀ k < 512, dir k = dir' k) (hl : LiveSlot dir i) : LiveSlot dir' i := by
  have hi := hl.lt
  refine ⟨hi, fun j hj => ?_, ?_, ?_⟩
  · rw [← h _ (by omega)]
    exact hl.shown j hj
  · rw [← h _ (by omega)]
    exact hl.kept
  · rw [← h _ (by omega)]
    exact hl.short

theorem uniqueNames_congr (h : ∀ k < 512, dir k = dir' k) : UniqueNames dir ↔ UniqueNames dir' := by
  have hsymm : ∀ k < 512, dir' k = dir k := fun k hk => (h k hk).symm
  constructor
  · intro hu i j hi hj hname
    exact hu i j (hi.congr hsymm) (hj.congr hsymm) (by
      rwa [slotName_congr h hi.lt, slotName_congr h hj.lt])
  · intro hu i j hi hj hname
    exact hu i j (hi.congr h) (hj.congr h) (by
      rwa [slotName_congr hsymm hi.lt, slotName_congr hsymm hj.lt])

/-- The slots in use once slot `i` is filled, but for that slot. -/
theorem LiveSlot.beside (h : target.length = 11) (hj : j ≠ i)
    (hl : LiveSlot (withEntry dir i target c length) j) : Beside dir i j := by
  obtain ⟨hlt, hshown, hkept, hshort⟩ := hl
  refine ⟨hj, hlt, fun k hk hki => ?_, ?_, ?_⟩
  · have := hshown k hk
    rwa [withEntry_first_of_ne h hki] at this
  · rwa [withEntry_first_of_ne h hj] at hkept
  · rwa [withEntry_of_ne h hj (by omega)] at hshort

theorem Beside.live (hl : Beside dir i j) (h : target.length = 11) (h0 : (0 : UInt8) ∉ target) :
    LiveSlot (withEntry dir i target c length) j := by
  obtain ⟨hj, hlt, hshown, hkept, hshort⟩ := hl
  refine ⟨hlt, fun k hk => ?_, ?_, ?_⟩
  · rcases eq_or_ne k i with rfl | hki
    · exact withEntry_first h h0
    · rw [withEntry_first_of_ne h hki]
      exact hshown k hk hki
  · rwa [withEntry_first_of_ne h hj]
  · rwa [withEntry_of_ne h hj (by omega)]

theorem head?_withEntry (h : target.length = 11) :
    target.head? = some (withEntry dir i target c length (32 * i)) := by
  have hhead := head?_slotName (withEntry dir i target c length) i
  rwa [slotName_withEntry_self h] at hhead

/-- The slot that was filled is in use, unless the name has the mark of a deleted entry. -/
theorem liveSlot_withEntry_self (h : target.length = 11) (h0 : (0 : UInt8) ∉ target)
    (hf : freeSlot dir = some i) (hmark : target.head? ≠ some 0xE5) :
    LiveSlot (withEntry dir i target c length) i := by
  obtain ⟨hi, -, hbefore⟩ := freeSlot_eq_some_iff.1 hf
  refine ⟨hi, fun k hk => ?_, fun hE5 => hmark (by rw [head?_withEntry h, hE5]), ?_⟩
  · rcases eq_or_ne k i with rfl | hki
    · exact withEntry_first h h0
    · rw [withEntry_first_of_ne h hki]
      exact (hbefore k (by omega)).1
  · rw [attr_withEntry h]
    decide

/-- **A name that fits its slot keeps the names unique.** -/
theorem FitsSlot.uniqueNames (hfit : FitsSlot dir i target) (h : target.length = 11) :
    UniqueNames (withEntry dir i target c length) := by
  -- Two slots in use: the filled one and another, or two others.
  have hother {j : ℕ} (hi : LiveSlot (withEntry dir i target c length) i) (hj : j ≠ i)
      (hl : LiveSlot (withEntry dir i target c length) j) :
      slotName (withEntry dir i target c length) j ≠
        slotName (withEntry dir i target c length) i := by
    rw [slotName_withEntry_of_ne h hj, slotName_withEntry_self h]
    refine hfit.new (fun hmark => hi.kept ?_) j (hl.beside h hj)
    exact Option.some.inj ((head?_withEntry h).symm.trans hmark)
  intro j k hj hk hname
  rcases eq_or_ne j i with rfl | hji
  · by_contra hne
    exact hother hj (Ne.symm hne) hk hname.symm
  · rcases eq_or_ne k i with rfl | hki
    · exact absurd hname (hother hk hji hj)
    · rw [slotName_withEntry_of_ne h hji, slotName_withEntry_of_ne h hki] at hname
      exact hfit.others j k (hj.beside h hji) (hk.beside h hki) hname

/-- **No other name does.** -/
theorem fitsSlot_of_uniqueNames (h : target.length = 11) (h0 : (0 : UInt8) ∉ target)
    (hf : freeSlot dir = some i) (hu : UniqueNames (withEntry dir i target c length)) :
    FitsSlot dir i target := by
  constructor
  · intro hmark j hj hname
    refine hj.ne (hu j i (hj.live h h0) (liveSlot_withEntry_self h h0 hf hmark) ?_)
    rw [slotName_withEntry_of_ne h hj.ne, slotName_withEntry_self h, hname]
  · intro j k hj hk hname
    refine hu j k (hj.live h h0) (hk.live h h0) ?_
    rwa [slotName_withEntry_of_ne h hj.ne, slotName_withEntry_of_ne h hk.ne]

/-- With zeros behind the end mark, a name fits if no slot in use has it. -/
theorem fitsSlot_of_zeros (hz : ∀ k m, k ≤ m → m < 16 → dir (32 * k) = 0 → dir (32 * m) = 0)
    (hu : UniqueNames dir) (hnew : ∀ j, LiveSlot dir j → slotName dir j ≠ target) :
    FitsSlot dir i target := by
  have hlive {j : ℕ} (hj : Beside dir i j) : LiveSlot dir j := by
    refine ⟨hj.lt, fun k hk hk0 => ?_, hj.kept, hj.short⟩
    exact hj.shown j (Nat.le_refl j) hj.ne (hz k j hk hj.lt hk0)
  exact ⟨fun _ j hj => hnew j (hlive hj), fun j k hj hk => hu j k (hlive hj) (hlive hk)⟩

theorem LiveSlot.of_resized (hl : LiveSlot (FatState.Appendable.resized dir j v) i) :
    LiveSlot dir i := by
  obtain ⟨hlt, hshown, hkept, hshort⟩ := hl
  refine ⟨hlt, fun k hk => ?_, ?_, ?_⟩
  · have := hshown k hk
    rwa [FatState.Appendable.resized_first] at this
  · rwa [FatState.Appendable.resized_first] at hkept
  · have hattr : FatState.Appendable.resized dir j v (32 * i + 11) = dir (32 * i + 11) := by
      rcases Nat.lt_or_ge j i with hlt | hge
      · exact put_of_ge (by rw [toLE_length]; omega)
      · exact put_of_lt (by omega)
    rwa [hattr] at hshort

/-- A new size changes no name. -/
theorem UniqueNames.resized (hu : UniqueNames dir) (j v : ℕ) :
    UniqueNames (FatState.Appendable.resized dir j v) := by
  intro i k hi hk hname
  rw [FatState.Appendable.slotName_resized, FatState.Appendable.slotName_resized] at hname
  exact hu i k hi.of_resized hk.of_resized hname

end

/-! ### What a request does to the disk -/

/-- The formatted name that a request writes. -/
def FsRequest.target : FsRequest → Option (List UInt8)
  | .write filename _ _ => some (formatFatName filename)
  | .append _ filename _ _ => some (formatFatName filename)
  | _ => none

namespace FatState

/-- The first sector of the root directory. -/
def rootDir (s : FatState) : Buf := (s.disk s.rootSector).buf

/-- A write stores sector `n`: the FAT sector, or the data sector of the cluster it takes. -/
def WriteStores (s : FatState) (n : ℕ) : Prop :=
  s.io 0 = true ∧ ∃ c, freeCluster (s.disk s.fatStartSector).buf = some c ∧
    (s.io 1 = true ∧ n = s.fatStartSector ∨ s.io 2 = true ∧ n = s.clusterToSector c)

/-- A write enters its name in slot `i`. -/
def WriteEnters (s : FatState) (i : ℕ) : Prop :=
  s.io 0 = true ∧ (freeCluster (s.disk s.fatStartSector).buf).isSome ∧ s.io 3 = true ∧
    s.io 4 = true ∧ freeSlot s.rootDir = some i

/-- An append to slot `i` stores its data in sector `n`. -/
def AppendStores (s : FatState) (fuel i n : ℕ) : Prop :=
  s.io 1 = true ∧ s.io 2 = true ∧ s.io 3 = true ∧ ∃ c,
    fatWalk (load (s.disk s.fatStartSector) s.diskBuffer) s.maxValidClusters fuel
      (slotCluster s.rootDir i) 0 = .stopped c ∧ n = s.clusterToSector c

/-- A request stores sector `n`, other than as a directory. -/
def StoresSector (s : FatState) (n : ℕ) : FsRequest → Prop
  | .write _ _ _ => s.WriteStores n
  | .append fuel filename _ _ => s.io 0 = true ∧
      match appendSlot s.rootDir (formatFatName filename) with
      | none => (s.readDisk s.rootSector).2.WriteStores n
      | some i => s.AppendStores fuel i n
  | _ => False

/-- A request enters its name in slot `i`. -/
def EntersSlot (s : FatState) (i : ℕ) : FsRequest → Prop
  | .write _ _ _ => s.WriteEnters i
  | .append _ filename _ _ => s.io 0 = true ∧
      appendSlot s.rootDir (formatFatName filename) = none ∧
      (s.readDisk s.rootSector).2.WriteEnters i
  | _ => False

/-- What a request that leaves its data elsewhere makes of the root directory: it stays, a free
slot is filled, or the entry of the name gets another size. -/
inductive RootStep (s : FatState) (req : FsRequest) : Sector → Prop
  | kept : s.RootStep req (s.disk s.rootSector)
  | entered {target : List UInt8} {i c length : ℕ} (ht : req.target = some target)
      (he : s.EntersSlot i req) :
      s.RootStep req (toSector (withEntry s.rootDir i target c length))
  | resized {target : List UInt8} {i v : ℕ} (ht : req.target = some target)
      (hname : slotName s.rootDir i = target) :
      s.RootStep req (toSector (Appendable.resized s.rootDir i v))

/-- The step keeps data out of the root directory and enters a name only where it fits. -/
def KeepsNames (s : FatState) (req : FsRequest) : Prop :=
  ¬ s.StoresSector s.rootSector req ∧
    ∀ target ∈ req.target, ∀ i, s.EntersSlot i req → FitsSlot s.rootDir i target

end FatState

section
variable {s : FatState} {c i n fuel length : ℕ} {filename target : List UInt8} {data : Buf}

theorem afterData_of_not_stores (h0 : s.io 0 = true)
    (hc : freeCluster (s.disk s.fatStartSector).buf = some c) (hn : ¬ s.WriteStores n) :
    s.afterData c data length n = s.disk n := by
  have hfat : s.afterFat c n = s.disk n := by
    rw [FatState.afterFat]
    split_ifs with h1
    · exact Function.update_of_ne (fun heq => hn ⟨h0, c, hc, .inl ⟨h1, heq⟩⟩) _ _
    · rfl
  rw [FatState.afterData]
  split_ifs with h2
  · rw [Function.update_of_ne (fun heq => hn ⟨h0, c, hc, .inr ⟨h2, heq⟩⟩), hfat]
  · exact hfat

/-- **A write outside the root directory.** -/
theorem write_disk (hn : n ≠ s.rootSector) (hs : ¬ s.WriteStores n) :
    (fsWriteFileContent filename data length s).disk n = s.disk n := by
  by_cases hstuck : s.io 0 = false ∨ freeCluster (s.disk s.fatStartSector).buf = none
  · rw [disk_write_of_stuck hstuck]
  · obtain ⟨h0, hc⟩ := not_or.1 hstuck
    obtain ⟨c, hc⟩ := Option.ne_none_iff_exists'.1 hc
    have h0 : s.io 0 = true := by simpa using h0
    rw [disk_write h0 hc]
    cases s.enteredSlot c data length with
    | none => exact afterData_of_not_stores h0 hc hs
    | some i => exact (Function.update_of_ne hn _ _).trans (afterData_of_not_stores h0 hc hs)

/-- **A write in the root directory.** -/
theorem write_rootDir (hs : ¬ s.WriteStores s.rootSector) :
    (fsWriteFileContent filename data length s).disk s.rootSector = s.disk s.rootSector ∨
      ∃ i c, s.WriteEnters i ∧
        (fsWriteFileContent filename data length s).disk s.rootSector =
          toSector (withEntry s.rootDir i (formatFatName filename) c length) := by
  by_cases hstuck : s.io 0 = false ∨ freeCluster (s.disk s.fatStartSector).buf = none
  · rw [disk_write_of_stuck hstuck]
    exact .inl rfl
  · obtain ⟨h0, hc⟩ := not_or.1 hstuck
    obtain ⟨c, hc⟩ := Option.ne_none_iff_exists'.1 hc
    have h0 : s.io 0 = true := by simpa using h0
    have hbefore : s.afterData c data length s.rootSector = s.disk s.rootSector :=
      afterData_of_not_stores h0 hc hs
    rw [disk_write h0 hc, FatState.enteredSlot, FatState.rootBefore, hbefore]
    split_ifs with hio
    · cases hslot : freeSlot (s.disk s.rootSector).buf with
      | none => exact .inl hbefore
      | some i =>
          rw [Bool.and_eq_true] at hio
          refine .inr ⟨i, c, ⟨h0, by rw [hc]; rfl, hio.1, hio.2, hslot⟩, ?_⟩
          exact Function.update_self _ _ _
    · exact .inl hbefore

/-- **An append to a slot** stores its data, and the size in that slot. -/
theorem append_slot_disk (h0 : s.io 0 = true)
    (hslot : appendSlot s.rootDir (formatFatName filename) = some i) :
    (∀ n, n ≠ s.rootSector → ¬ s.AppendStores fuel i n →
      ((fsAppendFileContent fuel filename data length s).getD s).disk n = s.disk n) ∧
    (¬ s.AppendStores fuel i s.rootSector →
      ((fsAppendFileContent fuel filename data length s).getD s).disk s.rootSector =
          s.disk s.rootSector ∨
        ∃ v, ((fsAppendFileContent fuel filename data length s).getD s).disk s.rootSector =
          toSector (FatState.Appendable.resized s.rootDir i v)) := by
  have hi : i < 16 := List.mem_range.1 (List.mem_of_find?_eq_some hslot)
  have hslot' : appendSlot (load (s.disk s.rootSector) s.diskBuffer) (formatFatName filename) =
      some i := (appendSlot_load _ _ _).trans hslot
  have hcluster : slotCluster (load (s.disk s.rootSector) s.diskBuffer) i =
      slotCluster s.rootDir i := slotCluster_load _ _ hi
  have hsame : (∀ n, n ≠ s.rootSector → ¬ s.AppendStores fuel i n → s.disk n = s.disk n) ∧
      (¬ s.AppendStores fuel i s.rootSector → s.disk s.rootSector = s.disk s.rootSector ∨
        ∃ v, s.disk s.rootSector = toSector (FatState.Appendable.resized s.rootDir i v)) :=
    ⟨fun _ _ _ => rfl, fun _ => .inl rfl⟩
  rw [fsAppendFileContent, s.readDisk_true _ h0]
  simp only [hslot', hcluster]
  cases h1 : s.io 1 with
  | false =>
      rw [FatState.readDisk_false _ _ (show s.nextIo 0 = false from h1)]
      exact hsame
  | true =>
      rw [FatState.readDisk_true _ _ (show s.nextIo 0 = true from h1)]
      simp only [load_load]
      cases hwalk : fatWalk (load (s.disk s.fatStartSector) s.diskBuffer) s.maxValidClusters fuel
          (slotCluster s.rootDir i) 0 with
      | running => exact hsame
      | aborted => exact hsame
      | stopped c =>
          simp only
          cases h2 : s.io 2 with
          | false =>
              rw [FatState.readWrite_false _ _ (show s.nextIo (0 + 1) = false from h2)]
              exact hsame
          | true =>
              rw [FatState.readWrite_true _ _ (show s.nextIo (0 + 1) = true from h2)]
              simp only
              -- `u` is the state once the data sector is stored.
              generalize hu : FatState.writeSector (s.clusterToSector c) _ _ = u
              have hgeo : u.toGeometry = s.toGeometry := by rw [← hu]; rfl
              have hdata : ∀ n, ¬ s.AppendStores fuel i n → u.disk n = s.disk n := by
                intro n hn
                rw [← hu]
                simp only [FatState.writeSector, FatState.nextIo, Nat.zero_add]
                split_ifs with h3
                · exact Function.update_of_ne (fun heq => hn ⟨h1, h2, h3, c, hwalk, heq⟩) _ _
                · rfl
              cases h4 : u.io 0 with
              | false =>
                  rw [FatState.readDisk_false _ _ h4]
                  exact ⟨fun n _ hn => hdata n hn, fun hn => .inl (hdata _ hn)⟩
              | true =>
                  rw [FatState.readDisk_true _ _ h4]
                  simp only [Option.getD_some, FatState.writeSector, toSector_put_load]
                  rw [show u.rootSector = s.rootSector by rw [hgeo]]
                  split_ifs with h5
                  · refine ⟨fun n hne hn => (Function.update_of_ne hne _ _).trans (hdata n hn),
                      fun hn => ?_⟩
                    rw [Function.update_self, hdata _ hn]
                    exact .inr ⟨_, rfl⟩
                  · exact ⟨fun n _ hn => hdata n hn, fun hn => .inl (hdata _ hn)⟩

/-- **What a request does to the disk.** -/
theorem fsStep_disk (s : FatState) (req : FsRequest) :
    (∀ n, n ≠ s.rootSector → ¬ s.StoresSector n req → (fsStep s req).disk n = s.disk n) ∧
      (¬ s.StoresSector s.rootSector req →
        s.RootStep req ((fsStep s req).disk s.rootSector)) := by
  cases req with
  | list buffer maxLen =>
      rw [fsStep, (list_unchanged buffer maxLen s).2]
      exact ⟨fun _ _ _ => rfl, fun _ => .kept⟩
  | read filename buffer maxLen =>
      rw [fsStep, (read_unchanged filename buffer maxLen s).2]
      exact ⟨fun _ _ _ => rfl, fun _ => .kept⟩
  | write filename data length =>
      refine ⟨fun n hne hn => write_disk hne hn, fun hn => ?_⟩
      rw [fsStep]
      rcases @write_rootDir s length filename data hn with heq | ⟨i, c, he, heq⟩ <;> rw [heq]
      · exact .kept
      · exact .entered rfl he
  | append fuel filename data length =>
      rw [fsStep]
      cases h0 : s.io 0 with
      | false =>
          rw [fsAppendFileContent, s.readDisk_false _ h0]
          exact ⟨fun _ _ _ => rfl, fun _ => .kept⟩
      | true =>
          cases hslot : appendSlot s.rootDir (formatFatName filename) with
          | none =>
              have hslot' : appendSlot (load (s.disk s.rootSector) s.diskBuffer)
                  (formatFatName filename) = none :=
                (appendSlot_load _ _ _).trans hslot
              have hread := s.readDisk_true s.rootSector h0
              have hstep : (fsAppendFileContent fuel filename data length s).getD s =
                  fsWriteFileContent filename data length (s.readDisk s.rootSector).2 := by
                rw [fsAppendFileContent, hread]
                simp only [hslot', Option.getD_some]
              have hstores {n : ℕ} : (s.readDisk s.rootSector).2.WriteStores n →
                  s.StoresSector n (.append fuel filename data length) := by
                intro hw
                simp only [FatState.StoresSector, hslot]
                exact ⟨h0, hw⟩
              rw [hstep]
              have hroot : (s.readDisk s.rootSector).2.rootSector = s.rootSector := by rw [hread]
              have hdisk : (s.readDisk s.rootSector).2.disk = s.disk := by rw [hread]
              refine ⟨fun n hne hn => ?_, fun hn => ?_⟩
              · rw [write_disk (by rwa [hroot]) (fun hw => hn (hstores hw)), hdisk]
              · have hw := @write_rootDir (s.readDisk s.rootSector).2 length filename data
                  (by rw [hroot]; exact fun hw => hn (hstores hw))
                simp only [FatState.rootDir, hroot, hdisk] at hw
                rcases hw with heq | ⟨i, c, he, heq⟩ <;> rw [heq]
                · exact .kept
                · exact .entered rfl ⟨h0, hslot, he⟩
          | some i =>
              have hd := @append_slot_disk s i fuel length filename data h0 hslot
              have hstores {n : ℕ} : s.AppendStores fuel i n →
                  s.StoresSector n (.append fuel filename data length) := by
                intro hw
                simp only [FatState.StoresSector, hslot]
                exact ⟨h0, hw⟩
              refine ⟨fun n hne hn => hd.1 n hne fun hw => hn (hstores hw), fun hn => ?_⟩
              rcases hd.2 fun hw => hn (hstores hw) with heq | ⟨v, heq⟩ <;> rw [heq]
              · exact .kept
              · exact .resized rfl (by simpa using List.find?_some hslot)

theorem read_later (buffer : Buf) (maxLen : ℕ) :
    s.Later (fsReadFileContent filename buffer maxLen s).2 := by
  have hread := s.readDisk_later s.rootSector
  rw [fsReadFileContent]
  generalize s.readDisk s.rootSector = r at hread ⊢
  rcases r with ⟨_ | _, s'⟩
  · exact hread
  · simp only
    split_ifs
    · exact hread
    · have hdata := s'.readDisk_later
        (s'.clusterToSector (readTarget s'.diskBuffer (formatFatName filename)).1)
      generalize s'.readDisk
        (s'.clusterToSector (readTarget s'.diskBuffer (formatFatName filename)).1) = r at hdata ⊢
      rcases r with ⟨_ | _, s''⟩ <;> exact hread.trans hdata

theorem append_later :
    s.Later ((fsAppendFileContent fuel filename data length s).getD s) := by
  have hread := s.readDisk_later s.rootSector
  rw [fsAppendFileContent]
  generalize s.readDisk s.rootSector = r at hread ⊢
  rcases r with ⟨_ | _, s₁⟩
  · exact hread
  simp only
  cases appendSlot s₁.diskBuffer (formatFatName filename) with
  | none => exact hread.trans (write_later s₁)
  | some i =>
      have hfat := s₁.readDisk_later s₁.fatStartSector
      simp only
      generalize s₁.readDisk s₁.fatStartSector = r at hfat ⊢
      rcases r with ⟨_ | _, s₂⟩
      · exact hread.trans hfat
      simp only
      cases fatWalk s₂.diskBuffer s₂.maxValidClusters fuel (slotCluster s₁.diskBuffer i) 0 with
      | running => exact .refl s
      | aborted => exact hread.trans hfat
      | stopped c =>
          have htarget := s₂.readWrite_later (s₂.clusterToSector c)
          simp only
          generalize s₂.readWrite (s₂.clusterToSector c) = r at htarget ⊢
          rcases r with ⟨_ | _, s₃⟩
          · exact (hread.trans hfat).trans htarget
          simp only
          generalize hu : FatState.writeSector _ _ _ = u
          have hdata : s₃.Later u := by
            rw [← hu]
            exact ⟨rfl, 1, fun _ => rfl⟩
          have hroot := u.readDisk_later u.rootSector
          generalize u.readDisk u.rootSector = r at hroot ⊢
          rcases r with ⟨_ | _, s₄⟩
          · exact (((hread.trans hfat).trans htarget).trans hdata).trans hroot
          · exact ((((hread.trans hfat).trans htarget).trans hdata).trans hroot).trans
              ⟨rfl, 1, fun _ => rfl⟩

/-- A request leaves the geometry of the volume. -/
theorem fsStep_later (s : FatState) (req : FsRequest) : s.Later (fsStep s req) := by
  cases req with
  | list buffer maxLen =>
      have hread := s.readDisk_later s.rootSector
      rw [fsStep, fsGetDirList]
      generalize s.readDisk s.rootSector = r at hread ⊢
      rcases r with ⟨_ | _, s'⟩ <;> exact hread
  | read filename buffer maxLen => exact read_later buffer maxLen
  | write filename data length => exact write_later s
  | append fuel filename data length => exact append_later

end

/-! ### Runs -/

section
variable {s : FatState}

/-- **A step that keeps the names apart**, whatever its requests to the device come to. -/
theorem uniqueNames_step (req : FsRequest) (hu : UniqueNames s.rootDir) (hok : s.KeepsNames req) :
    UniqueNames (fsStep s req).rootDir := by
  have hgeo : (fsStep s req).rootSector = s.rootSector := by rw [(fsStep_later s req).geometry]
  have hstep := (fsStep_disk s req).2 hok.1
  rw [FatState.rootDir, hgeo]
  generalize (fsStep s req).disk s.rootSector = sec at hstep ⊢
  cases hstep with
  | kept => exact hu
  | @entered target i c length ht he =>
      have hlen : target.length = 11 := by
        cases req <;> cases ht <;> exact formatFatName_length _
      exact (uniqueNames_congr fun _ hk => (buf_toSector hk).symm).1
        ((hok.2 target ht i he).uniqueNames hlen)
  | resized ht hname =>
      exact (uniqueNames_congr fun _ hk => (buf_toSector hk).symm).1 (hu.resized _ _)

theorem FatState.EntersSlot.free {req : FsRequest} {i : ℕ} (h : s.EntersSlot i req) :
    freeSlot s.rootDir = some i := by
  cases req with
  | list buffer maxLen => exact h.elim
  | read filename buffer maxLen => exact h.elim
  | write filename data length => exact h.2.2.2.2
  | append fuel filename data length =>
      have hfree := h.2.2.2.2.2.2
      rwa [s.readDisk_true _ h.1] at hfree

/-- The first slot with a name is slot `i`, in use, with this cluster and size; the cluster begins
with the sector `sec`. -/
structure FatState.Carries (s : FatState) (target : List UInt8) (i c length : ℕ) (sec : Sector) :
    Prop where
  lt : i < 16
  used : ∀ j ≤ i, s.rootDir (32 * j) ≠ 0 ∧ s.rootDir (32 * j) ≠ 0xE5
  name : slotName s.rootDir i = target
  first : ∀ j < i, slotName s.rootDir j ≠ target
  cluster : slotCluster s.rootDir i = c
  size : slotSize s.rootDir i = length
  data : s.disk (s.clusterToSector c) = sec

theorem slotSize_resized_of_ne {dir : Buf} {i k v : ℕ} (h : k ≠ i) :
    slotSize (FatState.Appendable.resized dir k v) i = slotSize dir i := by
  rw [slotSize, slotSize, u32, u32, FatState.Appendable.resized,
    bytesAt_put_of_disjoint _ (by rw [toLE_length]; omega)]

/-- Slots that agree carry the same name. -/
theorem FatState.Carries.congr {s' : FatState} {target : List UInt8} {i c length : ℕ} {sec : Sector}
    (h : s.Carries target i c length sec)
    (hfirst : ∀ j ≤ i, s'.rootDir (32 * j) = s.rootDir (32 * j))
    (hname : ∀ j ≤ i, slotName s'.rootDir j = slotName s.rootDir j)
    (hcluster : slotCluster s'.rootDir i = slotCluster s.rootDir i)
    (hsize : slotSize s'.rootDir i = slotSize s.rootDir i)
    (hdata : s'.disk (s'.clusterToSector c) = s.disk (s.clusterToSector c)) :
    s'.Carries target i c length sec where
  lt := h.lt
  used j hj := by
    rw [hfirst j hj]
    exact h.used j hj
  name := by rw [hname i (Nat.le_refl i), h.name]
  first j hj := by
    rw [hname j (by omega)]
    exact h.first j hj
  cluster := by rw [hcluster, h.cluster]
  size := by rw [hsize, h.size]
  data := by rw [hdata, h.data]

/-- **A step under another name** that leaves the sector leaves the file. -/
theorem FatState.Carries.step {target : List UInt8} {i c length : ℕ} {sec : Sector}
    (h : s.Carries target i c length sec) {req : FsRequest}
    (hroot : ¬ s.StoresSector s.rootSector req) (hne : s.clusterToSector c ≠ s.rootSector)
    (hdata : ¬ s.StoresSector (s.clusterToSector c) req) (hother : req.target ≠ some target) :
    (fsStep s req).Carries target i c length sec := by
  have hgeo := (fsStep_later s req).geometry
  have hkept : (fsStep s req).disk ((fsStep s req).clusterToSector c) =
      s.disk (s.clusterToSector c) := by
    rw [hgeo]
    exact (fsStep_disk s req).1 _ hne hdata
  have hstep := (fsStep_disk s req).2 hroot
  have hdir : (fsStep s req).rootDir = ((fsStep s req).disk s.rootSector).buf := by
    rw [FatState.rootDir, hgeo]
  have hi := h.lt
  generalize (fsStep s req).disk s.rootSector = sec' at hstep hdir
  cases hstep with
  | kept =>
      have hsame : (fsStep s req).rootDir = s.rootDir := hdir
      exact h.congr (fun _ _ => by rw [hsame]) (fun _ _ => by rw [hsame]) (by rw [hsame])
        (by rw [hsame]) hkept
  | @entered target' k c' length' ht he =>
      have hlen : target'.length = 11 := by
        cases req <;> cases ht <;> exact formatFatName_length _
      have hk : ∀ j ≤ i, j ≠ k := by
        rintro j hj rfl
        rcases (freeSlot_eq_some_iff.1 he.free).2.1 with h0 | hE5
        · exact (h.used j hj).1 h0
        · exact (h.used j hj).2 hE5
      have hb : ∀ n < 512, (fsStep s req).rootDir n = withEntry s.rootDir k target' c' length' n :=
        fun n hn => by rw [hdir, buf_toSector hn]
      refine h.congr (fun j hj => ?_) (fun j hj => ?_) ?_ ?_ hkept
      · rw [hb _ (by omega), withEntry_first_of_ne hlen (hk j hj)]
      · rw [slotName_congr hb (by omega), slotName_withEntry_of_ne hlen (hk j hj)]
      · rw [slotCluster_congr hb hi, slotCluster_withEntry_of_ne hlen (hk i (Nat.le_refl i))]
      · rw [slotSize_congr hb hi, slotSize_withEntry_of_ne hlen (hk i (Nat.le_refl i))]
  | @resized target' k v ht hname =>
      have hki : k ≠ i := by
        rintro rfl
        exact hother (ht.trans (congrArg some (hname.symm.trans h.name)))
      have hb : ∀ n < 512, (fsStep s req).rootDir n =
          FatState.Appendable.resized s.rootDir k v n := fun n hn => by rw [hdir, buf_toSector hn]
      refine h.congr (fun j hj => ?_) (fun j hj => ?_) ?_ ?_ hkept
      · rw [hb _ (by omega), FatState.Appendable.resized_first]
      · rw [slotName_congr hb (by omega), FatState.Appendable.slotName_resized]
      · rw [slotCluster_congr hb hi, FatState.Appendable.slotCluster_resized]
      · rw [slotSize_congr hb hi, slotSize_resized_of_ne hki]

/-- **A read of the name** shows the sector. -/
theorem FatState.Carries.read {filename : List UInt8} {i c length maxLen : ℕ} {sec : Sector}
    {buffer : Buf} (h : s.Carries (formatFatName filename) i c length sec)
    (hio : ∀ n, s.io n = true) (hc : c ≠ 0) (hl : length ≤ 512) (hmax : length < maxLen) :
    (fsReadFileContent filename buffer maxLen s).1 =
      put buffer 0 (bytesAt sec.buf 0 length ++ [0]) := by
  have hslot : readSlot s.rootDir (formatFatName filename) = some i :=
    readSlot_eq_some_iff.2 ⟨h.lt, (h.used i (Nat.le_refl i)).1, h.name,
      fun j hj => ⟨(h.used j (by omega)).1, h.first j hj⟩⟩
  have hlookup : s.lookup filename = (c, length) := by
    have hread := readTarget_of_readSlot hslot
    rw [h.cluster, h.size] at hread
    exact hread
  rw [read_of_found (hio 0) (by rw [hlookup]; exact hc) (hio 1), hlookup]
  simp only
  rw [h.data, Nat.min_eq_left (by omega : length ≤ maxLen - 1), bytesAt_load _ _ (by omega)]

/-- The directory after a write that enters its name. -/
theorem rootDir_write {filename : List UInt8} {data : Buf} {i c length : ℕ}
    (hio : ∀ n, s.io n = true) (hroot : ¬ s.WriteStores s.rootSector)
    (hc : freeCluster (s.disk s.fatStartSector).buf = some c) (hi : freeSlot s.rootDir = some i) :
    (fsWriteFileContent filename data length s).disk =
        Function.update (s.afterData c data length) s.rootSector
          (toSector (withEntry s.rootDir i (formatFatName filename) c length)) ∧
      ∀ n < 512, (fsWriteFileContent filename data length s).rootDir n =
        withEntry s.rootDir i (formatFatName filename) c length n := by
  have hbuf : s.rootBefore c data length = s.rootDir := by
    rw [FatState.rootBefore, afterData_of_not_stores (hio 0) hc hroot]
    rfl
  have hdisk := @disk_write s filename data length c (hio 0) hc
  rw [FatState.enteredSlot, hbuf, hi] at hdisk
  simp only [hio, Bool.and_self, if_true] at hdisk
  refine ⟨hdisk, fun n hn => ?_⟩
  rw [FatState.rootDir, (write_later s).geometry, hdisk, Function.update_self, buf_toSector hn]

/-- **When a write keeps the names unique.** -/
theorem uniqueNames_write_iff {filename : List UInt8} {data : Buf} {i c length : ℕ}
    (hio : ∀ n, s.io n = true) (hroot : ¬ s.WriteStores s.rootSector)
    (hc : freeCluster (s.disk s.fatStartSector).buf = some c) (hi : freeSlot s.rootDir = some i)
    (h0 : (0 : UInt8) ∉ filename) :
    UniqueNames (fsWriteFileContent filename data length s).rootDir ↔
      FitsSlot s.rootDir i (formatFatName filename) := by
  rw [uniqueNames_congr (rootDir_write hio hroot hc hi).2]
  exact ⟨fitsSlot_of_uniqueNames (formatFatName_length _) (nul_not_mem_formatFatName h0) hi,
    fun hfit => hfit.uniqueNames (formatFatName_length _)⟩

/-- **A write that enters its name** and has its sector to itself. -/
theorem carries_write {filename : List UInt8} {data : Buf} {i c length : ℕ}
    (hio : ∀ n, s.io n = true) (hroot : ¬ s.WriteStores s.rootSector)
    (hc : freeCluster (s.disk s.fatStartSector).buf = some c) (hi : freeSlot s.rootDir = some i)
    (h0 : (0 : UInt8) ∉ filename) (hmark : (formatFatName filename).head? ≠ some 0xE5)
    (hfirst : ∀ j < i, slotName s.rootDir j ≠ formatFatName filename) (hl : length < 2 ^ 32) :
    (fsWriteFileContent filename data length s).Carries (formatFatName filename) i c length
      (dataSector data length) := by
  have hlen := formatFatName_length filename
  have hbounds := freeCluster_bounds hc
  obtain ⟨hi16, -, hbefore⟩ := freeSlot_eq_some_iff.1 hi
  have hne : s.clusterToSector c ≠ s.rootSector := fun heq =>
    hroot ⟨hio 0, c, hc, .inr ⟨hio 2, heq.symm⟩⟩
  have hgeo := (@write_later filename data length s).geometry
  obtain ⟨hdisk, hb⟩ := @rootDir_write s filename data i c length hio hroot hc hi
  constructor
  · exact hi16
  · intro j hj
    rw [hb _ (by omega)]
    rcases eq_or_ne j i with rfl | hji
    · refine ⟨withEntry_first hlen (nul_not_mem_formatFatName h0), fun hE5 => hmark ?_⟩
      rw [head?_withEntry hlen, hE5]
    · rw [withEntry_first_of_ne hlen hji]
      exact hbefore j (by omega)
  · rw [slotName_congr hb hi16, slotName_withEntry_self hlen]
  · intro j hj
    rw [slotName_congr hb (by omega), slotName_withEntry_of_ne hlen (Nat.ne_of_lt hj)]
    exact hfirst j hj
  · rw [slotCluster_congr hb hi16, slotCluster_withEntry_self hlen (by omega)]
  · rw [slotSize_congr hb hi16, slotSize_withEntry_self hlen hl]
  · rw [hgeo, hdisk, Function.update_of_ne hne]
    simp [FatState.afterData, hio]

/-- After the requests `pre` the data are written as a new file, and the requests `later` have other
names and leave its sector. -/
structure FatState.NewestData (s : FatState) (pre : List FsRequest) (filename : List UInt8)
    (data : Buf) (length : ℕ) (later : List FsRequest) : Prop where
  io : ∀ n, s.io n = true
  nul_not_mem : (0 : UInt8) ∉ filename
  mark : (formatFatName filename).head? ≠ some 0xE5
  length_le : length ≤ 512
  slot : ∃ i, freeSlot (run fsStep s pre).rootDir = some i ∧
    ∀ j < i, slotName (run fsStep s pre).rootDir j ≠ formatFatName filename
  sector : ∃ c, freeCluster ((run fsStep s pre).disk (run fsStep s pre).fatStartSector).buf = some c ∧
    StepsMeet fsStep (fun t req => ¬ t.StoresSector (s.clusterToSector c) req)
      (fsStep (run fsStep s pre) (.write filename data length)) later
  other : ∀ req ∈ later, req.target ≠ some (formatFatName filename)

theorem run_later (s : FatState) (reqs : List FsRequest) : s.Later (run fsStep s reqs) :=
  run_keeps (fun (t : FatState) req (h : s.Later t) => h.trans (fsStep_later t req)) (.refl s) reqs

/-- **A run under other names** that leaves the sector leaves the file. -/
theorem FatState.Carries.run {target : List UInt8} {i c length : ℕ} {sec : Sector}
    (h : s.Carries target i c length sec) (hne : s.clusterToSector c ≠ s.rootSector)
    {reqs : List FsRequest} (hok : StepsMeet fsStep FatState.KeepsNames s reqs)
    (hdata : StepsMeet fsStep (fun t req => ¬ t.StoresSector (s.clusterToSector c) req) s reqs)
    (hother : ∀ req ∈ reqs, req.target ≠ some target) :
    (Runs.run fsStep s reqs).Carries target i c length sec := by
  induction reqs generalizing s with
  | nil => exact h
  | cons req reqs ih =>
      have hgeo := (fsStep_later s req).geometry
      refine ih (h.step hok.1.1 hne hdata.1 (hother req (by simp))) ?_ hok.2 ?_
        fun req' hreq => hother req' (List.mem_cons_of_mem _ hreq)
      · rw [hgeo]
        exact hne
      · rw [hgeo]
        exact hdata.2

/-- **File names stay unique** in every run whose steps keep data out of the root directory and
enter a name only where it fits; then the data written as a new file are what a later read returns. -/
theorem names_unique (s : FatState) (hu : UniqueNames s.rootDir) (reqs : List FsRequest)
    (hok : StepsMeet fsStep FatState.KeepsNames s reqs) :
    (∀ pre, pre <+: reqs → UniqueNames (run fsStep s pre).rootDir) ∧
      ∀ pre filename data length later,
        reqs = pre ++ .write filename data length :: later →
        s.NewestData pre filename data length later →
        ∀ buffer maxLen, length < maxLen →
          (fsReadFileContent filename buffer maxLen (run fsStep s reqs)).1 =
            put buffer 0 (bytesAt data 0 length ++ [0]) := by
  constructor
  · intro pre hpre
    exact run_invariant (fun (t : FatState) req (h : UniqueNames t.rootDir) =>
      uniqueNames_step req h) hu (hok.of_isPrefix hpre)
  · rintro pre filename data length later rfl hnew buffer maxLen hmax
    obtain ⟨hio, h0, hmark, hl, ⟨i, hi, hfirst⟩, ⟨c, hc, hsector⟩, hother⟩ := hnew
    obtain ⟨-, hwrite, hlater⟩ := stepsMeet_append.1 hok
    rw [run_append, run_cons]
    have hpre := run_later s pre
    have hbounds := freeCluster_bounds hc
    generalize run fsStep s pre = t at hi hfirst hc hsector hwrite hlater hpre ⊢
    have hcarries := @carries_write t filename data i c length (hpre.io_true hio) hwrite.1 hc hi h0
      hmark hfirst (by omega)
    have hgeo := (fsStep_later t (.write filename data length)).geometry
    have hne : t.clusterToSector c ≠ t.rootSector := fun heq =>
      hwrite.1 ⟨hpre.io_true hio 0, c, hc, .inr ⟨hpre.io_true hio 2, heq.symm⟩⟩
    have hkept := FatState.Carries.run (s := fsStep t (.write filename data length)) hcarries
      (by rw [hgeo]; exact hne) hlater (by rw [hgeo, hpre.geometry]; exact hsector) hother
    have hend := (run_later (fsStep t (.write filename data length)) later).io_true
      ((fsStep_later t (.write filename data length)).io_true (hpre.io_true hio))
    rw [hkept.read hend (by omega) hl hmax, bytesAt_dataSector data hl]

end

/-! ### A second file, and a second write -/

/-- The slots behind the file are zero. -/
theorem oneFileVolume_first {filename content : List UInt8} {n : ℕ} (hn : n < 16) (h0 : n ≠ 0) :
    (oneFileVolume filename content).rootDir (32 * n) = 0 := by
  rw [FatState.rootDir, oneFileVolume_rootSector_buf (by omega), oneFileDir,
    withEntry_first_of_ne (formatFatName_length filename) h0]

theorem oneFileVolume_live {filename content : List UInt8} {n : ℕ}
    (h : LiveSlot (oneFileVolume filename content).rootDir n) : n = 0 := by
  by_contra h0
  exact h.shown n (Nat.le_refl n) (oneFileVolume_first h.lt h0)

theorem oneFileVolume_uniqueNames {filename content : List UInt8} :
    UniqueNames (oneFileVolume filename content).rootDir := by
  intro i j hi hj _
  rw [oneFileVolume_live hi, oneFileVolume_live hj]

theorem oneFileVolume_name {filename content : List UInt8} :
    slotName (oneFileVolume filename content).rootDir 0 = formatFatName filename := by
  rw [FatState.rootDir, slotName_congr (fun k hk => oneFileVolume_rootSector_buf hk) (by decide)]
  exact slotName_withEntry_self (formatFatName_length filename)

/-- A write to the volume of the file `A` takes cluster 4 and slot 1. -/
theorem oneFileVolume_free :
    freeCluster ((oneFileVolume [65] [1]).disk (oneFileVolume [65] [1]).fatStartSector).buf = some 4 ∧
      freeSlot (oneFileVolume [65] [1]).rootDir = some 1 := by
  refine ⟨by decide, freeSlot_eq_some_iff.2 ⟨by decide, ?_, fun j hj => ?_⟩⟩
  · exact .inl (oneFileVolume_first (by decide) (by decide))
  · obtain rfl : j = 0 := by omega
    rw [FatState.rootDir, oneFileVolume_rootSector_buf (by decide)]
    decide

/-- The FAT and cluster 4 are not the root directory. -/
theorem oneFileVolume_apart :
    ¬ (oneFileVolume [65] [1]).WriteStores (oneFileVolume [65] [1]).rootSector := by
  rintro ⟨-, c, hc, hsec⟩
  obtain rfl := Option.some.inj (oneFileVolume_free.1.symm.trans hc)
  rw [oneFileVolume_rootSector] at hsec
  rcases hsec with ⟨-, h⟩ | ⟨-, h⟩ <;> exact absurd h (by decide)

/-- The file `B` next to `A`. -/
theorem second_file_unique :
    UniqueNames (run fsStep (oneFileVolume [65] [1]) [.write [66] (cString [2]) 1]).rootDir ∧
      (fsReadFileContent [66] (fun _ => 0) 255
        (run fsStep (oneFileVolume [65] [1]) [.write [66] (cString [2]) 1])).1 =
        put (fun _ => 0) 0 [2, 0] := by
  have hzeros (k m : ℕ) (hkm : k ≤ m) (hm : m < 16)
      (hk : (oneFileVolume [65] [1]).rootDir (32 * k) = 0) :
      (oneFileVolume [65] [1]).rootDir (32 * m) = 0 := by
    refine oneFileVolume_first hm fun h0 => ?_
    obtain rfl : k = 0 := by omega
    rw [FatState.rootDir, oneFileVolume_rootSector_buf (by decide)] at hk
    exact absurd hk (by decide)
  have hname : formatFatName [65] ≠ formatFatName [66] := by decide
  have hfit (target : List UInt8) (ht : target = formatFatName [66]) (i : ℕ) :
      FitsSlot (oneFileVolume [65] [1]).rootDir i target := by
    refine fitsSlot_of_zeros hzeros oneFileVolume_uniqueNames fun j hj heq => hname ?_
    rw [← ht, ← heq, oneFileVolume_live hj, oneFileVolume_name]
  obtain ⟨hunique, hnewest⟩ := names_unique (oneFileVolume [65] [1]) oneFileVolume_uniqueNames
    [.write [66] (cString [2]) 1]
    ⟨⟨oneFileVolume_apart, fun target ht i _ => hfit target (Option.some.inj ht).symm i⟩, trivial⟩
  refine ⟨hunique _ List.prefix_rfl, hnewest [] [66] (cString [2]) 1 [] rfl ?_ (fun _ => 0) 255
    (by decide)⟩
  refine ⟨fun _ => rfl, by decide, by decide, by decide, ⟨1, oneFileVolume_free.2, fun j hj => ?_⟩,
    ⟨4, oneFileVolume_free.1, trivial⟩, nofun⟩
  obtain rfl : j = 0 := by omega
  exact oneFileVolume_name.trans_ne hname

/-- **A second write of a name makes a second entry.** -/
theorem second_write_doubles :
    ¬ ∀ (s : FatState) (reqs : List FsRequest), UniqueNames s.rootDir →
      UniqueNames (run fsStep s reqs).rootDir := by
  intro h
  have hu := h (oneFileVolume [65] [1]) [.write [65] (cString [2]) 1] oneFileVolume_uniqueNames
  have hiff := @uniqueNames_write_iff (oneFileVolume [65] [1]) [65] (cString [2]) 1 4 1
    (fun _ => rfl) oneFileVolume_apart oneFileVolume_free.1 oneFileVolume_free.2 (by decide)
  rw [run_cons, run_nil, fsStep, hiff] at hu
  refine hu.new (by decide) 0 ⟨by decide, by decide, fun k hk hk1 => ?_, ?_, ?_⟩ oneFileVolume_name
  · obtain rfl : k = 0 := by omega
    rw [FatState.rootDir, oneFileVolume_rootSector_buf (by decide)]
    decide
  · rw [FatState.rootDir, oneFileVolume_rootSector_buf (by decide)]
    decide
  · rw [FatState.rootDir, oneFileVolume_rootSector_buf (by decide)]
    decide

end Fat32
end AiOsExchange
