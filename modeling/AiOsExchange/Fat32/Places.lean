/-
# The root directory as places

The store that a volume stands for is computed from its first directory sector, its first FAT
sector and the first sectors of its clusters (`FatState.asStore`).  What the operations of
`modules/fs/fat32.c` find in the slots is what the store finds in its places.

`Orderly` is what the correspondence rests on.  It asks of the files in the root directory what a
write relies on: their clusters are taken in the FAT, the files of one cluster share none, and
behind the end mark no slot is taken.  Two things may become of a slot: it stays but for the size
of its file (`SameSlot`), or a free one is filled (`Filled`), and these keep the directory in order
(`Orderly.step`).
-/

import AiOsExchange.Fat32.Lookup
import AiOsExchange.Fat32.Store
import AiOsExchange.Fat32.Tree
import AiOsExchange.Fat32.Unique

namespace AiOsExchange
namespace Fat32

open CMemory Chains

namespace FatState

/-! ### The store of a volume -/

/-- The cluster in slot `i` of the root directory. -/
def slotStart (s : FatState) (i : ℕ) : ℕ := slotCluster s.rootDir i

/-- Slot `i` is neither unused nor deleted. -/
def Used (s : FatState) (i : ℕ) : Prop := s.rootDir (32 * i) ≠ 0 ∧ s.rootDir (32 * i) ≠ 0xE5

/-- Slot `i` has a file: no subdirectory, volume label or part of a long name. -/
def IsFile (s : FatState) (i : ℕ) : Prop := s.Used i ∧ s.rootDir (32 * i + 11) &&& 0x18 = 0

/-- Slot `i` has a file of one cluster, whose FAT entry is in the first FAT sector. -/
structure Single (s : FatState) (i : ℕ) : Prop where
  file : s.IsFile i
  low : 2 ≤ s.slotStart i ∧ s.slotStart i < 128
  last : 0x0FFFFFF8 ≤ s.entry (s.slotStart i)

instance (s : FatState) (i : ℕ) : Decidable (s.Used i) := inferInstanceAs (Decidable (_ ∧ _))

instance (s : FatState) (i : ℕ) : Decidable (s.IsFile i) := inferInstanceAs (Decidable (_ ∧ _))

instance (s : FatState) (i : ℕ) : Decidable (s.Single i) :=
  decidable_of_iff (s.IsFile i ∧ (2 ≤ s.slotStart i ∧ s.slotStart i < 128) ∧
    0x0FFFFFF8 ≤ s.entry (s.slotStart i)) ⟨fun h => ⟨h.1, h.2.1, h.2.2⟩, fun h => ⟨h.1, h.2, h.3⟩⟩

/-- The file in slot `i`. -/
def fileIn (s : FatState) (i : ℕ) : StoredFile where
  name := slotName s.rootDir i
  size := slotSize s.rootDir i
  block := s.disk (s.clusterToSector (s.slotStart i))

/-- What is in slot `i`. -/
def place (s : FatState) (i : ℕ) : Place :=
  if s.Single i then .file (s.fileIn i)
  else if s.Used i then .other (slotName s.rootDir i) (decide (s.rootDir (32 * i + 11) ≠ 0x0F))
  else .free

/-- The clusters that a write can take. -/
def freeClusters (s : FatState) : Finset ℕ := (Finset.range 128).filter fun c => 2 ≤ c ∧ s.entry c = 0

/-- **The store that the volume stands for.** -/
def asStore (s : FatState) : Store where
  places := (List.range 16).map s.place
  clusters := s.freeClusters.card

/-- **A volume whose root directory is in order**, and whose block requests succeed. -/
structure Orderly (s : FatState) (count : ℕ) (root : List ℕ) : Prop where
  volume : s.WellFormed count root
  enough : 126 ≤ count
  io : ∀ n, s.io n = true
  zeros : ∀ i j, i ≤ j → j < 16 → s.rootDir (32 * i) = 0 → s.rootDir (32 * j) = 0
  taken : ∀ i < 16, s.IsFile i → 2 ≤ s.slotStart i → s.slotStart i < 128 →
    s.entry (s.slotStart i) ≠ 0
  apart : ∀ i < 16, ∀ j < 16, s.Single i → s.Single j → s.slotStart i = s.slotStart j → i = j
  own : ∀ i < 16, s.Single i → s.slotStart i ∉ root

section
variable {s s' : FatState} {i j c count : ℕ} {root : List ℕ} {target : List UInt8}

theorem place_of_single (h : s.Single i) : s.place i = .file (s.fileIn i) := if_pos h

theorem place_of_not_used (h : ¬ s.Used i) : s.place i = .free := by
  rw [place, if_neg fun hs => h hs.file.1, if_neg h]

/-- The free places are the slots that a write can fill. -/
theorem place_isFree_iff : (s.place i).isFree = true ↔
    s.rootDir (32 * i) = 0 ∨ s.rootDir (32 * i) = 0xE5 := by
  have hused : s.Used i ↔ ¬ (s.rootDir (32 * i) = 0 ∨ s.rootDir (32 * i) = 0xE5) := not_or.symm
  rw [place]
  split_ifs with hs hu
  · exact iff_of_false Bool.false_ne_true (hused.1 hs.file.1)
  · exact iff_of_false Bool.false_ne_true (hused.1 hu)
  · exact iff_of_true rfl (not_not.1 fun h => hu (hused.2 h))

/-- The name of a slot in use. -/
theorem place_name_of_used (h : s.Used i) : (s.place i).name = some (slotName s.rootDir i) := by
  rw [place]
  split_ifs <;> rfl

/-- A name that is in use can be looked up in the slots. -/
theorem place_hasName_iff (h0 : (0 : UInt8) ∉ target) (hmark : target.head? ≠ some 0xE5) :
    (s.place i).hasName target = true ↔ slotName s.rootDir i = target := by
  by_cases hu : s.Used i
  · rw [Place.hasName_iff, place_name_of_used hu, Option.some_inj]
  · rw [place_of_not_used hu]
    refine iff_of_false (by simp [Place.hasName, Place.name]) fun hname => hu ?_
    have hhead := head?_slotName s.rootDir i
    rw [hname] at hhead
    refine ⟨fun hz => h0 ?_, fun hz => hmark (by rw [hhead, hz])⟩
    rw [hz] at hhead
    exact List.mem_of_head? hhead

theorem find?_isFree : ((List.range 16).find? fun i => (s.place i).isFree) = freeSlot s.rootDir :=
  find?_congr fun i _ => by rw [Bool.eq_iff_iff, place_isFree_iff, decide_eq_true_iff]

theorem find?_hasName (h0 : (0 : UInt8) ∉ target) (hmark : target.head? ≠ some 0xE5) :
    ((List.range 16).find? fun i => (s.place i).hasName target) = appendSlot s.rootDir target :=
  find?_congr fun i _ => by rw [Bool.eq_iff_iff, place_hasName_iff h0 hmark, decide_eq_true_iff]

/-- **What the store finds is in the slot that an append finds.** -/
theorem asStore_find (h0 : (0 : UInt8) ∉ target) (hmark : target.head? ≠ some 0xE5) :
    s.asStore.find target = (appendSlot s.rootDir target).map s.place := by
  rw [Store.find, asStore, List.find?_map, ← find?_hasName h0 hmark]
  rfl

/-- A read finds it too, as no slot behind the end mark is taken. -/
theorem Orderly.readSlot_eq (h : s.Orderly count root) (h0 : (0 : UInt8) ∉ target) :
    readSlot s.rootDir target = appendSlot s.rootDir target := by
  rw [readSlot_eq_filter]
  cases ha : appendSlot s.rootDir target with
  | none => rfl
  | some i =>
      obtain ⟨hi, hname, -⟩ := appendSlot_eq_some_iff.1 ha
      have hpos : decide (∀ j < i + 1, s.rootDir (32 * j) ≠ 0) = true := by
        refine decide_eq_true fun j hj hz => h0 ?_
        have hhead := head?_slotName s.rootDir i
        rw [hname, h.zeros j i (by omega) hi hz] at hhead
        exact List.mem_of_head? hhead
      rw [Option.filter_some, if_pos hpos]

/-! ### What an operation does to the slots -/

/-- Slot `i` has the same in `s'`, but for the size and the bytes of a file. -/
structure SameSlot (s s' : FatState) (i : ℕ) : Prop where
  first : s'.rootDir (32 * i) = s.rootDir (32 * i)
  attr : s'.rootDir (32 * i + 11) = s.rootDir (32 * i + 11)
  name : slotName s'.rootDir i = slotName s.rootDir i
  start : s'.slotStart i = s.slotStart i
  single : s'.Single i ↔ s.Single i

theorem SameSlot.used (h : s.SameSlot s' i) : s'.Used i ↔ s.Used i := by rw [Used, Used, h.first]

theorem SameSlot.isFile (h : s.SameSlot s' i) : s'.IsFile i ↔ s.IsFile i := by
  rw [IsFile, IsFile, h.used, h.attr]

/-- The first 28 bytes of a slot are the same, and the FAT entry of its file. -/
theorem sameSlot_of_bytes (hdir : ∀ k < 28, s'.rootDir (32 * i + k) = s.rootDir (32 * i + k))
    (hentry : s.IsFile i → 2 ≤ s.slotStart i → s.slotStart i < 128 →
      s'.entry (s.slotStart i) = s.entry (s.slotStart i)) : s.SameSlot s' i := by
  have hfield {o n : ℕ} (hn : o + n ≤ 28) :
      bytesAt s'.rootDir (32 * i + o) n = bytesAt s.rootDir (32 * i + o) n :=
    bytesAt_congr fun k hk => by rw [Nat.add_assoc, hdir _ (by omega)]
  have hstart : s'.slotStart i = s.slotStart i := by
    rw [slotStart, slotStart, slotCluster, slotCluster, u16, u16, u16, u16, hfield (by omega),
      hfield (by omega)]
  have hfirst : s'.rootDir (32 * i) = s.rootDir (32 * i) := hdir 0 (by omega)
  have hattr := hdir 11 (by omega)
  have hfile : s'.IsFile i ↔ s.IsFile i := by rw [IsFile, IsFile, Used, Used, hfirst, hattr]
  refine ⟨hfirst, hattr, hfield (o := 0) (by omega), hstart, fun h => ?_, fun h => ?_⟩
  · have hf := hfile.1 h.file
    have hlow := hstart ▸ h.low
    refine ⟨hf, hlow, ?_⟩
    rw [← hentry hf hlow.1 hlow.2, ← hstart]
    exact h.last
  · refine ⟨hfile.2 h.file, by rw [hstart]; exact h.low, ?_⟩
    rw [hstart, hentry h.file h.low.1 h.low.2]
    exact h.last

/-- Then the place is the same, if the file is. -/
theorem SameSlot.place_eq (h : s.SameSlot s' i) (hfile : s.Single i → s'.fileIn i = s.fileIn i) :
    s'.place i = s.place i := by
  by_cases hs : s.Single i
  · rw [place_of_single hs, place_of_single (h.single.2 hs), hfile hs]
  · rw [place, place, if_neg hs, if_neg fun hs' => hs (h.single.1 hs'), h.name, h.attr]
    simp only [h.used]

/-- Slot `i` is filled in `s'`, for a file in a cluster that was free. -/
structure Filled (s s' : FatState) (root : List ℕ) (i : ℕ) : Prop where
  slot : freeSlot s.rootDir = some i
  single : s'.Single i
  free : s.entry (s'.slotStart i) = 0
  apart : s'.slotStart i ∉ root

/-- **The root directory stays in order** when slots stay, or one is filled, and clusters that are
taken stay so. -/
theorem Orderly.step (h : s.Orderly count root) (hlater : s.Later s')
    (hentry : ∀ c, ValidCluster count c → s.entry c ≠ 0 → s'.entry c = s.entry c)
    (hslot : ∀ i < 16, s.SameSlot s' i ∨ s.Filled s' root i) : s'.Orderly count root := by
  have hvalid {c : ℕ} (hlow : 2 ≤ c ∧ c < 128) : ValidCluster count c :=
    ⟨hlow.1, by have := h.enough; omega⟩
  have htaken {i : ℕ} (hi : i < 16) (hs : s.SameSlot s' i) (hsingle : s'.Single i) :
      s.entry (s'.slotStart i) ≠ 0 := by
    have hs₀ := hs.single.1 hsingle
    rw [hs.start]
    exact h.taken i hi hs₀.file hs₀.low.1 hs₀.low.2
  refine ⟨⟨?_, ?_, h.volume.root_valid, fun c hc => ?_⟩, h.enough, hlater.io_true h.io, ?_, ?_, ?_, ?_⟩
  · rw [hlater.geometry]
    exact h.volume.layout
  · rw [hlater.geometry]
    exact h.volume.rootChain.congr fun c hc =>
      next_congr (hentry c (h.volume.root_valid c hc) (h.volume.root_taken c hc))
  · rw [hentry c (h.volume.root_valid c hc) (h.volume.root_taken c hc)]
    exact h.volume.root_taken c hc
  · intro i j hij hj hz
    rcases hslot i (by omega) with hi | hi
    · rw [hi.first] at hz
      rcases hslot j hj with hj' | hj'
      · rw [hj'.first]
        exact h.zeros i j hij hj hz
      · obtain ⟨-, -, hbefore⟩ := freeSlot_eq_some_iff.1 hj'.slot
        rcases Nat.lt_or_eq_of_le hij with hlt | rfl
        · exact absurd hz (hbefore i hlt).1
        · exact absurd (hi.first.trans hz) hj'.single.file.1.1
    · exact absurd hz hi.single.file.1.1
  · intro i hi hfile h2 h128
    rcases hslot i hi with hs | hs
    · rw [hs.start] at h2 h128 ⊢
      have ht := h.taken i hi (hs.isFile.1 hfile) h2 h128
      rwa [hentry _ (hvalid ⟨h2, h128⟩) ht]
    · intro h0
      have hlast := hs.single.last
      rw [h0] at hlast
      exact absurd hlast (by decide)
  · intro i hi j hj hsi hsj heq
    rcases hslot i hi with hi' | hi' <;> rcases hslot j hj with hj' | hj'
    · rw [hi'.start, hj'.start] at heq
      exact h.apart i hi j hj (hi'.single.1 hsi) (hj'.single.1 hsj) heq
    · exact absurd ((congrArg s.entry heq).trans hj'.free) (htaken hi hi' hsi)
    · exact absurd ((congrArg s.entry heq.symm).trans hi'.free) (htaken hj hj' hsj)
    · exact Option.some.inj (hi'.slot.symm.trans hj'.slot)
  · intro i hi hs
    rcases hslot i hi with hi' | hi'
    · rw [hi'.start]
      exact h.own i hi (hi'.single.1 hs)
    · exact hi'.apart

end

end FatState

end Fat32
end AiOsExchange
