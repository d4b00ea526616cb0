/-
# When an append stores its data

`fs_append_file_content` of `modules/fs/fat32.c` reports nothing.  Its data is stored when the file
has it behind the bytes it had.

| the call finds | the data is stored if |
| --- | --- |
| the file, with clusters in the first FAT sector | the entry is written, and the sector the walk leads to takes the data and is the one the file ends in (`Lands`) |
| no file | a write makes one that holds the data (`Creates`) |

`append_stores_iff` says so for every outcome of the block requests.  What is on the disk already
need not be written, so a failed request may leave the data stored.
-/

import AiOsExchange.Fat32.Atomic
import AiOsExchange.Fat32.Frame
import AiOsExchange.Fat32.Lookup

namespace AiOsExchange
namespace Fat32

open CMemory Chains

/-- The bytes of a call. -/
def NewFile.bytes (f : NewFile) : List UInt8 := bytesAt f.data 0 f.length

@[simp] theorem NewFile.bytes_length (f : NewFile) : f.bytes.length = f.length :=
  bytesAt_length _ _ _

namespace FatState

/-! ### The bytes under a name -/

/-- The file system has these bytes under the name: those of the file of the first root sector, and
none where that sector has no such name. -/
def HasBytes (s : FatState) (count : ℕ) (root : List ℕ) (filename bytes : List UInt8) : Prop :=
  s.WellFormed count root ∧
    (appendSlot s.rootDir (formatFatName filename) = none ∧ bytes = [] ∨
      ∃ slot chain, slot < 16 ∧ s.Stores count root filename slot chain ∧
        s.content root slot chain = bytes)

/-- From `s` to `s'` the file gets the bytes of the call behind those it had. -/
def StoredBy (s s' : FatState) (count : ℕ) (root : List ℕ) (f : NewFile) : Prop :=
  ∃ bytes, s.HasBytes count root f.filename bytes ∧
    s'.HasBytes count root f.filename (bytes ++ f.bytes)

/-! ### What has to be -/

/-- The first sector of the last cluster of a chain. -/
def lastSector (s : FatState) (chain : List ℕ) : ℕ :=
  s.chainSector chain ((chain.length - 1) * s.sectorsPerCluster)

/-- Sector `n` has the bytes of the call where a file of this size would get them. -/
def Shows (s : FatState) (n size : ℕ) (f : NewFile) : Prop :=
  bytesAt (s.disk n).buf (size % 512) f.length = f.bytes

/-- The data comes to stand where the file ends.  Either that is in the sector that is written, or
it stands there already and the sector that is written, if any, has nothing to lose. -/
def Placed (s : FatState) (chain : List ℕ) (size : ℕ) (f : NewFile) : Prop :=
  EndsInLast s.sectorsPerCluster chain.length size ∧ s.io 3 = true ∨
    s.Shows (s.chainSector chain (size / 512)) size f ∧
      (s.io 3 = false ∨ size / 512 < (chain.length - 1) * s.sectorsPerCluster ∨
        s.Shows (s.lastSector chain) size f)

/-- The outcomes of a call that finds the file and stores its data. -/
structure Lands (s : FatState) (slot : ℕ) (chain : List ℕ) (f : NewFile) : Prop where
  requests : s.io 0 = true ∧ s.io 1 = true ∧ s.io 2 = true ∧ s.io 4 = true ∧ s.io 5 = true
  fits : f.length ≤ 512 - slotSize s.rootDir slot % 512
  room : slotSize s.rootDir slot + f.length ≤ 512 * (s.sectorsPerCluster * chain.length)
  placed : s.Placed chain (slotSize s.rootDir slot) f

/-- A write takes cluster `c` and fills a slot. -/
def Takes (s : FatState) (c : ℕ) : Prop :=
  s.io 0 = true ∧ freeCluster (s.disk s.fatStartSector).buf = some c ∧ s.filled.isSome

/-- The outcomes of a write that makes a file with the data. -/
def Creates (s : FatState) (f : NewFile) : Prop :=
  ∃ c, s.Takes c ∧ s.io 1 = true ∧ s.WillHold c f

/-- The state in which an append looks for the name. -/
def searched (s : FatState) : FatState := (s.readDisk s.rootSector).2

/-- **What has to be for an append to store its data.** -/
def AppendStoresAll (s : FatState) (count : ℕ) (root : List ℕ) (f : NewFile) : Prop :=
  (∃ slot chain, slot < 16 ∧ s.Stores count root f.filename slot chain ∧ chain ≠ [] ∧
      (∀ c ∈ chain, c < 128) ∧ (f.length = 0 ∨ s.Lands slot chain f)) ∨
    appendSlot s.rootDir (formatFatName f.filename) = none ∧
      (s.io 0 = true ∧ s.searched.Creates f ∨
        f.length = 0 ∧ ¬ (s.io 0 = true ∧ ∃ c, s.searched.Takes c))

/-- The file is as the kernel makes it: with clusters, all in the first FAT sector. -/
def LowFile (s : FatState) (count : ℕ) (root : List ℕ) (filename : List UInt8) : Prop :=
  ∀ slot chain, slot < 16 → s.Stores count root filename slot chain →
    chain ≠ [] ∧ ∀ c ∈ chain, c < 128

end FatState

section
variable {s s' : FatState} {count slot slot' c i n : ℕ} {root chain chain' : List ℕ}
  {filename bytes : List UInt8} {f : NewFile}

/-! ### One file under a name -/

/-- A volume is known by its geometry and its disk. -/
theorem FatState.WellFormed.of_disk (hg : s'.toGeometry = s.toGeometry) (hd : s'.disk = s.disk)
    (h : s.WellFormed count root) : s'.WellFormed count root := by
  obtain ⟨g, _, _, disk, _⟩ := s
  obtain ⟨g', _, _, disk', _⟩ := s'
  obtain rfl : g' = g := hg
  obtain rfl : disk' = disk := hd
  exact ⟨h.layout, h.rootChain, h.root_valid, h.root_taken⟩

theorem FatState.Stores.of_disk (hg : s'.toGeometry = s.toGeometry) (hd : s'.disk = s.disk)
    (h : s.Stores count root filename slot chain) : s'.Stores count root filename slot chain := by
  obtain ⟨g, _, _, disk, _⟩ := s
  obtain ⟨g', _, _, disk', _⟩ := s'
  obtain rfl : g' = g := hg
  obtain rfl : disk' = disk := hd
  exact ⟨h.slot_lt, h.used, h.name, h.first, h.fileChain, h.valid, h.taken, h.apart, h.size_le⟩

theorem rootDir_of_disk (hg : s'.toGeometry = s.toGeometry) (hd : s'.disk = s.disk) :
    s'.rootDir = s.rootDir := by
  rw [FatState.rootDir, FatState.rootDir, hd, hg]

theorem content_of_disk (hg : s'.toGeometry = s.toGeometry) (hd : s'.disk = s.disk) :
    s'.content root slot chain = s.content root slot chain := by
  obtain ⟨g, _, _, disk, _⟩ := s
  obtain ⟨g', _, _, disk', _⟩ := s'
  obtain rfl : g' = g := hg
  obtain rfl : disk' = disk := hd
  rfl

theorem FatState.HasBytes.of_disk (hg : s'.toGeometry = s.toGeometry) (hd : s'.disk = s.disk)
    (h : s.HasBytes count root filename bytes) : s'.HasBytes count root filename bytes := by
  obtain ⟨hw, ⟨hnone, hnil⟩ | ⟨slot, chain, hlt, hs, hc⟩⟩ := h
  · exact ⟨hw.of_disk hg hd, .inl ⟨rootDir_of_disk hg hd ▸ hnone, hnil⟩⟩
  · exact ⟨hw.of_disk hg hd, .inr ⟨slot, chain, hlt, hs.of_disk hg hd,
      (content_of_disk hg hd).trans hc⟩⟩

/-- A name leads to one slot. -/
theorem stores_slot_unique (hw : s.WellFormed count root)
    (hs : s.Stores count root filename slot chain) (hlt : slot < 16)
    (hs' : s.Stores count root filename slot' chain') (hlt' : slot' < 16) :
    slot' = slot ∧ chain' = chain := by
  have hslot := (appendSlot_of_stores hw hs hlt).symm.trans (appendSlot_of_stores hw hs' hlt')
  obtain rfl := Option.some.inj hslot
  refine ⟨rfl, ?_⟩
  rcases hs.fileChain with h | ⟨h0, rfl⟩
  · rcases hs'.fileChain with h' | ⟨h0', rfl⟩
    · exact h'.unique h
    · have := (hs.valid _ h.mem_start).1
      omega
  · rcases hs'.fileChain with h' | ⟨h0', rfl⟩
    · have := (hs'.valid _ h'.mem_start).1
      omega
    · rfl

/-- **The bytes under a name are those of its file.** -/
theorem hasBytes_of_stores (hw : s.WellFormed count root)
    (hs : s.Stores count root filename slot chain) (hlt : slot < 16) :
    s.HasBytes count root filename bytes ↔ s.content root slot chain = bytes := by
  constructor
  · rintro ⟨-, ⟨hnone, -⟩ | ⟨slot', chain', hlt', hs', hc⟩⟩
    · rw [appendSlot_of_stores hw hs hlt] at hnone
      simp at hnone
    · obtain ⟨rfl, rfl⟩ := stores_slot_unique hw hs hlt hs' hlt'
      exact hc
  · exact fun hc => ⟨hw, .inr ⟨slot, chain, hlt, hs, hc⟩⟩

theorem hasBytes_of_absent (hw : s.WellFormed count root)
    (hnone : appendSlot s.rootDir (formatFatName filename) = none) :
    s.HasBytes count root filename bytes ↔ bytes = [] := by
  constructor
  · rintro ⟨-, ⟨-, hnil⟩ | ⟨slot, chain, hlt, hs, -⟩⟩
    · exact hnil
    · rw [appendSlot_of_stores hw hs hlt] at hnone
      simp at hnone
  · exact fun hnil => ⟨hw, .inl ⟨hnone, hnil⟩⟩

theorem FatState.HasBytes.unique {bytes' : List UInt8} (h : s.HasBytes count root filename bytes)
    (h' : s.HasBytes count root filename bytes') : bytes' = bytes := by
  obtain ⟨hw, ⟨hnone, rfl⟩ | ⟨slot, chain, hlt, hs, rfl⟩⟩ := h
  · exact (hasBytes_of_absent hw hnone).1 h'
  · exact ((hasBytes_of_stores hw hs hlt).1 h').symm

theorem storedBy_iff (h : s.HasBytes count root f.filename bytes) :
    s.StoredBy s' count root f ↔ s'.HasBytes count root f.filename (bytes ++ f.bytes) := by
  constructor
  · rintro ⟨bytes', h', hafter⟩
    rwa [h.unique h'] at hafter
  · exact fun hafter => ⟨bytes, h, hafter⟩

/-! ### The file is there -/

/-- A map over a range in two parts. -/
theorem map_range_eq_append_iff {α : Type*} {g e d : ℕ → α} {a : ℕ} :
    (List.range (a + n)).map g = (List.range a).map e ++ (List.range n).map d ↔
      (∀ k < a, g k = e k) ∧ ∀ r < n, g (a + r) = d r := by
  have hcut : (List.range (a + n)).map g =
      (List.range a).map g ++ (List.range n).map fun r => g (a + r) := by
    rw [List.range_add, List.map_append, List.map_map]
    rfl
  rw [hcut]
  constructor
  · intro h
    obtain ⟨hold, hnew⟩ := List.append_inj h (by simp)
    exact ⟨fun k hk => List.map_inj_left.1 hold k (List.mem_range.2 hk),
      fun r hr => List.map_inj_left.1 hnew r (List.mem_range.2 hr)⟩
  · rintro ⟨hold, hnew⟩
    rw [List.map_inj_left.2 fun k hk => hold k (List.mem_range.1 hk),
      List.map_inj_left.2 fun r hr => hnew r (List.mem_range.1 hr)]

/-- A sector shows the bytes of the call byte for byte. -/
theorem shows_iff {size : ℕ} :
    s.Shows n size f ↔ ∀ r < f.length, (s.disk n).buf (size % 512 + r) = f.data r := by
  rw [FatState.Shows, NewFile.bytes, bytesAt, bytesAt, List.map_inj_left]
  simp only [List.mem_range, Nat.zero_add]

/-- The sector that the bytes of the call are put into, as many as fit. -/
def stamped (s : FatState) (slot target : ℕ) (f : NewFile) : Sector :=
  if s.io 3 then
    (s.disk target).put (slotSize s.rootDir slot % 512) (bytesAt f.data 0 (s.copied slot f.length))
  else s.disk target

section
variable {target : ℕ}

theorem copied_eq (hfits : f.length ≤ 512 - slotSize s.rootDir slot % 512) :
    s.copied slot f.length = f.length := Nat.min_eq_left hfits

theorem stamped_of_fail (h3 : s.io 3 = false) : stamped s slot target f = s.disk target := by
  rw [stamped, h3, if_neg Bool.false_ne_true]

/-- The new bytes of the sector. -/
theorem stamped_new (h3 : s.io 3 = true) (hfits : f.length ≤ 512 - slotSize s.rootDir slot % 512)
    {r : ℕ} (hr : r < f.length) :
    (stamped s slot target f).buf (slotSize s.rootDir slot % 512 + r) = f.data r := by
  rw [stamped, if_pos h3, copied_eq hfits, Sector.put, buf_toSector (by omega),
    put_apply (by rw [bytesAt_length]; exact hr)]
  simp [bytesAt]

/-- Those in front of them. -/
theorem stamped_before {k : ℕ} (hk : k < slotSize s.rootDir slot % 512) :
    (stamped s slot target f).buf k = (s.disk target).buf k := by
  rw [stamped]
  split_ifs
  · rw [Sector.put, buf_toSector (by omega)]
    exact put_of_lt hk
  · rfl

/-- A sector that shows the bytes stays. -/
theorem stamped_of_shows (hfits : f.length ≤ 512 - slotSize s.rootDir slot % 512)
    (h : s.Shows target (slotSize s.rootDir slot) f) : stamped s slot target f = s.disk target := by
  rw [stamped, copied_eq hfits, show bytesAt f.data 0 f.length = f.bytes from rfl]
  split_ifs
  · rw [← h, Sector.put, put_bytesAt, toSector_buf]
  · rfl

end

section
variable (hw : s.WellFormed count root) (hs : s.Stores count root f.filename slot chain)
  (hslot : slot < 16) (hne : chain ≠ []) (hlow : ∀ c ∈ chain, c < 128)

include hw hs hslot hne

omit hs hslot in
theorem lastSector_eq : s.lastSector chain = s.clusterToSector (chain.getLast hne) ∧
    (chain.length - 1) * s.sectorsPerCluster / s.sectorsPerCluster < chain.length := by
  have hpos := hw.layout.sectorsPerCluster_pos
  have hlen := List.length_pos_of_ne_nil hne
  have hdiv : (chain.length - 1) * s.sectorsPerCluster / s.sectorsPerCluster = chain.length - 1 :=
    Nat.mul_div_cancel _ hpos
  have hlt : (chain.length - 1) * s.sectorsPerCluster / s.sectorsPerCluster < chain.length := by omega
  refine ⟨?_, hlt⟩
  rw [FatState.lastSector, Geometry.chainSector_eq hlt, Nat.mul_mod_left, Nat.add_zero,
    List.getLast_eq_getElem]
  simp only [hdiv]

omit hs hne in
/-- The file's own bytes. -/
theorem content_of_stores :
    s.content root slot chain = s.fileBytes chain (slotSize s.rootDir slot) := by
  rw [FatState.content, hw.dirSector_eq hslot, Nat.mod_eq_of_lt hslot]
  rfl

include hlow

/-- The bytes of the file once the entry is written: those of the last sector are new. -/
theorem fileByte_stamped (hg : s'.toGeometry = s.toGeometry)
    (hd : s'.disk = FatState.Appendable.replaced s slot (s.clusterToSector (chain.getLast hne))
      (stamped s slot (s.clusterToSector (chain.getLast hne)) f) n) {k : ℕ}
    (hk : k < 512 * (s.sectorsPerCluster * chain.length)) :
    s'.fileByte chain k =
      if k / 512 = (chain.length - 1) * s.sectorsPerCluster then
        (stamped s slot (s.lastSector chain) f).buf (k % 512)
      else s.fileByte chain k := by
  have A := appendable_withMemory s.diskBuffer hw hs hslot hne hlow
  obtain ⟨hlast, hlastlt⟩ := lastSector_eq hw hne
  have hin : k / 512 / s.sectorsPerCluster < chain.length := by
    rw [Nat.div_div_eq_div_mul]
    exact Nat.div_lt_of_lt_mul (by rw [Nat.mul_assoc]; exact hk)
  have hsame : s.chainSector chain (k / 512) = s.clusterToSector (chain.getLast hne) ↔
      k / 512 = (chain.length - 1) * s.sectorsPerCluster := by
    rw [← hlast]
    constructor
    · exact hw.layout.chainSector_inj hs.valid (hs.chain_of_ne_nil hne).nodup hin hlastlt
    · exact fun h => by rw [h, FatState.lastSector]
  rw [FatState.Appendable.fileByte_replaced A hg hd hin, hlast]
  exact if_congr hsame rfl rfl

/-- The old bytes of the file stay where the sector that is written is behind its end or shows the
new ones already. -/
theorem stamped_keeps_iff (hg : s'.toGeometry = s.toGeometry)
    (hd : s'.disk = FatState.Appendable.replaced s slot (s.clusterToSector (chain.getLast hne))
      (stamped s slot (s.clusterToSector (chain.getLast hne)) f) n)
    (h3 : s.io 3 = true) (hfits : f.length ≤ 512 - slotSize s.rootDir slot % 512)
    (hroom : slotSize s.rootDir slot ≤ 512 * (s.sectorsPerCluster * chain.length))
    (hfar : ¬ EndsInLast s.sectorsPerCluster chain.length (slotSize s.rootDir slot)) :
    (∀ k < slotSize s.rootDir slot, s'.fileByte chain k = s.fileByte chain k) ↔
      slotSize s.rootDir slot / 512 < (chain.length - 1) * s.sectorsPerCluster ∨
        s.Shows (s.lastSector chain) (slotSize s.rootDir slot) f := by
  have hbyte {k : ℕ} (hk : k < slotSize s.rootDir slot) :=
    fileByte_stamped hw hs hslot hne hlow hg hd (Nat.lt_of_lt_of_le hk hroom)
  have hold {k : ℕ} (hk : k / 512 = (chain.length - 1) * s.sectorsPerCluster) :
      s.fileByte chain k = (s.disk (s.lastSector chain)).buf (k % 512) := by
    rw [FatState.fileByte, hk, FatState.lastSector]
  rw [EndsInLast] at hfar
  constructor
  · intro hkept
    rcases Nat.lt_or_gt_of_ne hfar with hlt | hgt
    · exact .inl hlt
    · refine .inr (shows_iff.2 fun r hr => ?_)
      -- byte `r` of the stamp is a byte of the file
      have hk : 512 * ((chain.length - 1) * s.sectorsPerCluster) +
          (slotSize s.rootDir slot % 512 + r) < slotSize s.rootDir slot := by omega
      have hdiv : (512 * ((chain.length - 1) * s.sectorsPerCluster) +
          (slotSize s.rootDir slot % 512 + r)) / 512 = (chain.length - 1) * s.sectorsPerCluster := by
        omega
      have hmod : (512 * ((chain.length - 1) * s.sectorsPerCluster) +
          (slotSize s.rootDir slot % 512 + r)) % 512 = slotSize s.rootDir slot % 512 + r := by omega
      have hsame := hkept _ hk
      rw [hbyte hk, if_pos hdiv, hold hdiv, hmod, stamped_new h3 hfits hr] at hsame
      exact hsame.symm
  · intro h k hk
    rw [hbyte hk]
    split_ifs with hlast
    · rcases h with hlt | hshows
      · omega
      · rw [stamped_of_shows hfits hshows, hold hlast]
    · rfl

/-- **The data is behind the file** once the entry is written, if it is placed there. -/
theorem fileBytes_stamped_iff (hg : s'.toGeometry = s.toGeometry)
    (hd : s'.disk = FatState.Appendable.replaced s slot (s.clusterToSector (chain.getLast hne))
      (stamped s slot (s.clusterToSector (chain.getLast hne)) f) n)
    (hfits : f.length ≤ 512 - slotSize s.rootDir slot % 512)
    (hroom : slotSize s.rootDir slot + f.length ≤ 512 * (s.sectorsPerCluster * chain.length)) :
    s'.fileBytes chain (slotSize s.rootDir slot + f.length) =
        s.fileBytes chain (slotSize s.rootDir slot) ++ f.bytes ↔
      s.Placed chain (slotSize s.rootDir slot) f := by
  have hbyte {k : ℕ} (hk : k < slotSize s.rootDir slot + f.length) :=
    fileByte_stamped hw hs hslot hne hlow hg hd (Nat.lt_of_lt_of_le hk hroom)
  have hold {k : ℕ} (hk : k / 512 = (chain.length - 1) * s.sectorsPerCluster) :
      s.fileByte chain k = (s.disk (s.lastSector chain)).buf (k % 512) := by
    rw [FatState.fileByte, hk, FatState.lastSector]
  have hend {r : ℕ} (hr : r < f.length) :
      (slotSize s.rootDir slot + r) / 512 = slotSize s.rootDir slot / 512 ∧
        (slotSize s.rootDir slot + r) % 512 = slotSize s.rootDir slot % 512 + r := by omega
  have hshows : s.Shows (s.chainSector chain (slotSize s.rootDir slot / 512)) (slotSize s.rootDir slot)
      f ↔ ∀ r < f.length, s.fileByte chain (slotSize s.rootDir slot + r) = f.data r := by
    rw [shows_iff]
    refine forall₂_congr fun r hr => ?_
    rw [FatState.fileByte, (hend hr).1, (hend hr).2]
  have hbytes : f.bytes = (List.range f.length).map f.data := by
    simp only [NewFile.bytes, bytesAt, Nat.zero_add]
  rw [FatState.fileBytes, FatState.fileBytes, hbytes, map_range_eq_append_iff, FatState.Placed, hshows]
  -- a byte behind the file that the call does not write
  have hnew (hkeep : ∀ r < f.length, s'.fileByte chain (slotSize s.rootDir slot + r) =
        s.fileByte chain (slotSize s.rootDir slot + r)) :
      (∀ r < f.length, s'.fileByte chain (slotSize s.rootDir slot + r) = f.data r) ↔
        ∀ r < f.length, s.fileByte chain (slotSize s.rootDir slot + r) = f.data r :=
    forall₂_congr fun r hr => by rw [hkeep r hr]
  cases h3 : s.io 3 with
  | false =>
      have hkeep {k : ℕ} (hk : k < slotSize s.rootDir slot + f.length) :
          s'.fileByte chain k = s.fileByte chain k := by
        rw [hbyte hk, stamped_of_fail h3]
        split_ifs with hlast
        · exact (hold hlast).symm
        · rfl
      rw [hnew fun r hr => hkeep (by omega)]
      simp only [Bool.false_eq_true, and_false, false_or, true_or, and_true, and_iff_right_iff_imp]
      exact fun _ k hk => hkeep (by omega)
  | true =>
      by_cases hsame : EndsInLast s.sectorsPerCluster chain.length (slotSize s.rootDir slot)
      · refine iff_of_true ⟨fun k hk => ?_, fun r hr => ?_⟩ (.inl ⟨hsame, rfl⟩)
        · rw [hbyte (by omega)]
          split_ifs with hlast
          · rw [EndsInLast] at hsame
            rw [hold hlast, stamped_before (by omega)]
          · rfl
        · rw [hbyte (by omega), (hend hr).1, (hend hr).2, if_pos (by exact hsame)]
          exact stamped_new h3 hfits hr
      · have hfar (r : ℕ) (hr : r < f.length) :
            s'.fileByte chain (slotSize s.rootDir slot + r) =
              s.fileByte chain (slotSize s.rootDir slot + r) := by
          rw [hbyte (by omega), (hend hr).1, if_neg (by exact hsame)]
        rw [hnew hfar,
          stamped_keeps_iff hw hs hslot hne hlow hg hd h3 hfits (by omega) hsame]
        simp only [hsame, false_and, false_or, Bool.true_eq_false, and_comm]

omit hslot hlow in
/-- The entry is written if all other requests than the data's succeed. -/
theorem appendDisk_replaced (h2 : s.io 2 = true) (h4 : s.io 4 = true) (h5 : s.io 5 = true) :
    s.appendDisk slot (chain.getLast hne) f.data f.length =
      FatState.Appendable.replaced s slot (s.clusterToSector (chain.getLast hne))
        (stamped s slot (s.clusterToSector (chain.getLast hne)) f) (s.copied slot f.length) := by
  have hroot : s.rootSector ≠ s.clusterToSector (chain.getLast hne) :=
    (hw.sector_ne_root (hs.valid _ (List.getLast_mem hne)) (hs.apart _ (List.getLast_mem hne))).symm
  have hstore : s.afterStore slot (chain.getLast hne) f.data f.length =
      Function.update s.disk (s.clusterToSector (chain.getLast hne))
        (stamped s slot (s.clusterToSector (chain.getLast hne)) f) := by
    rw [FatState.afterStore, stamped]
    split_ifs
    · rfl
    · exact (Function.update_eq_self _ _).symm
  rw [FatState.appendDisk, if_pos h2, if_pos (by simp [h4, h5]), hstore, Function.update_of_ne hroot]
  rfl

/-- **The outcome of a call that finds the file.** -/
theorem append_of_stores {fuel : ℕ} (hfuel : 126 ≤ fuel) :
    ∃ s', fsAppendFileContent fuel f.filename f.data f.length s = some s' ∧
      s'.toGeometry = s.toGeometry ∧
      s'.disk = if s.io 0 && s.io 1 then s.appendDisk slot (chain.getLast hne) f.data f.length
        else s.disk := by
  have A := appendable_withMemory s.diskBuffer hw hs hslot hne hlow
  have hwalk : fatWalk s.loadedFat s.maxValidClusters fuel (slotCluster s.rootDir slot) 0 =
      .stopped (chain.getLast hne) :=
    A.fatWalk_eq s.diskBuffer (Nat.le_trans A.length_le.2 hfuel)
  have hlater : s.Later ((fsAppendFileContent fuel f.filename f.data f.length s).getD s) :=
    append_later
  obtain ⟨s', hs', hd⟩ : ∃ s', fsAppendFileContent fuel f.filename f.data f.length s = some s' ∧
      s'.disk = if s.io 0 && s.io 1 then s.appendDisk slot (chain.getLast hne) f.data f.length
        else s.disk := by
    cases h0 : s.io 0 with
    | false =>
        refine ⟨{ s with io := s.nextIo }, ?_, rfl⟩
        rw [fsAppendFileContent, s.readDisk_false _ h0]
    | true =>
        have h := append_disk fuel f.data f.length h0 (appendSlot_of_stores hw hs hslot)
        rw [hwalk] at h
        cases h1 : s.io 1 with
        | false =>
            rw [h1, if_neg Bool.false_ne_true] at h
            obtain ⟨s', hs', hd⟩ := Option.map_eq_some_iff.1 h
            exact ⟨s', hs', by simpa using hd⟩
        | true =>
            rw [h1, if_pos rfl] at h
            obtain ⟨s', hs', hd⟩ := Option.map_eq_some_iff.1 h
            exact ⟨s', hs', by simpa using hd⟩
  rw [hs'] at hlater
  exact ⟨s', hs', hlater.geometry, hd⟩

/-- A file with a new size in its entry has the room for it. -/
theorem room_of_replaced {sec : Sector} (hg : s'.toGeometry = s.toGeometry)
    (hd : s'.disk = FatState.Appendable.replaced s slot (s.clusterToSector (chain.getLast hne)) sec n)
    (hn : n ≤ 512) (h : s'.HasBytes count root f.filename bytes) :
    slotSize s.rootDir slot + n ≤ 512 * (s.sectorsPerCluster * chain.length) := by
  have A := appendable_withMemory s.diskBuffer hw hs hslot hne hlow
  have hw' : s'.WellFormed count root := A.wellFormed_replaced hg hd
  have hmod : slot % 16 = slot := Nat.mod_eq_of_lt hslot
  have hdir : ∀ k < 512, s'.rootDir k =
      FatState.Appendable.resized s.rootDir slot (slotSize s.rootDir slot + n) k := by
    intro k hk
    have hdirk := A.dirSector_replaced hg hd hslot hk
    rwa [hw'.dirSector_eq hslot] at hdirk
  -- the name still leads to the slot
  have hfound : appendSlot s'.rootDir (formatFatName f.filename) = some slot := by
    obtain ⟨-, hname, hfirst⟩ := appendSlot_eq_some_iff.1 (appendSlot_of_stores hw hs hslot)
    refine appendSlot_eq_some_iff.2 ⟨hslot, ?_, fun j hj => ?_⟩
    · rw [slotName_congr hdir hslot, FatState.Appendable.slotName_resized, hname]
    · rw [slotName_congr hdir (by omega), FatState.Appendable.slotName_resized]
      exact hfirst j hj
  obtain ⟨-, ⟨hnone, -⟩ | ⟨slot', chain', hlt', hs', -⟩⟩ := h
  · rw [hfound] at hnone
    simp at hnone
  · obtain rfl := Option.some.inj (hfound.symm.trans (appendSlot_of_stores hw' hs' hlt'))
    have hchain := hs.chain_of_ne_nil hne
    have hcluster : slotCluster (s'.dirSector root slot) (slot % 16) =
        slotCluster (s.dirSector root slot) (slot % 16) := by
      rw [slotCluster_of_stores hw' hslot, slotCluster_of_stores hw hslot,
        slotCluster_congr hdir hslot, FatState.Appendable.slotCluster_resized]
    have hnext : Chain s'.next (slotCluster (s'.dirSector root slot) (slot % 16)) chain := by
      rw [hcluster]
      exact hchain.congr fun c hc => A.next_replaced hg hd (hs.valid c hc)
    have hsame : chain' = chain := by
      rcases hs'.fileChain with h' | ⟨h0, -⟩
      · exact h'.unique hnext
      · exact absurd (hcluster.symm.trans h0) (hs.cluster_ne_zero hne)
    have hsize : slotSize (s'.dirSector root slot) (slot % 16) = slotSize s.rootDir slot + n := by
      have hbound : slotSize s.rootDir slot + n < 2 ^ 32 := by
        have hspc := hw.layout.sectorsPerCluster_lt
        have hcap := A.size_le
        have hmul := Nat.mul_le_mul (Nat.le_of_lt hspc) A.length_le.2
        have hcap' : slotSize s.rootDir slot ≤ 512 * (s.sectorsPerCluster * chain.length) := hcap
        omega
      rw [hw'.dirSector_eq hslot, hmod]
      exact (slotSize_congr hdir hslot).trans (FatState.Appendable.slotSize_resized _ _ hbound)
    have hle := hs'.size_le
    rw [hsize, hsame, hg] at hle
    exact hle

/-- With the entry written, the file has the bytes of its chain up to the new size. -/
theorem hasBytes_replaced {sec : Sector} (hg : s'.toGeometry = s.toGeometry)
    (hd : s'.disk = FatState.Appendable.replaced s slot (s.clusterToSector (chain.getLast hne)) sec n)
    (hn : n ≤ 512) :
    s'.HasBytes count root f.filename bytes ↔
      slotSize s.rootDir slot + n ≤ 512 * (s.sectorsPerCluster * chain.length) ∧
        s'.fileBytes chain (slotSize s.rootDir slot + n) = bytes := by
  have A := appendable_withMemory s.diskBuffer hw hs hslot hne hlow
  have hw' : s'.WellFormed count root := A.wellFormed_replaced hg hd
  have hiff (hroom : slotSize s.rootDir slot + n ≤ 512 * (s.sectorsPerCluster * chain.length)) :
      s'.HasBytes count root f.filename bytes ↔
        s'.fileBytes chain (slotSize s.rootDir slot + n) = bytes := by
    obtain ⟨hs', hsize⟩ := A.stores_replaced hg hd hroom
    rw [hasBytes_of_stores hw' hs' hslot, FatState.content, Nat.mod_eq_of_lt hslot, hsize]
    rfl
  constructor
  · intro h
    have hroom := room_of_replaced hw hs hslot hne hlow hg hd hn h
    exact ⟨hroom, (hiff hroom).1 h⟩
  · exact fun h => (hiff h.1).2 h.2

omit hslot hlow in
/-- The entry is the same unless all its requests succeed, and nothing changes for no data. -/
theorem append_unsized (hg : s'.toGeometry = s.toGeometry)
    (hd : s'.disk = if s.io 0 && s.io 1 then s.appendDisk slot (chain.getLast hne) f.data f.length
      else s.disk)
    (hreq : ¬ (s.io 0 = true ∧ s.io 1 = true ∧ s.io 2 = true ∧ s.io 4 = true ∧ s.io 5 = true)) :
    s'.rootDir = s.rootDir ∧ (f.length = 0 → s'.disk = s.disk) := by
  have hroot : s.rootSector ≠ s.clusterToSector (chain.getLast hne) :=
    (hw.sector_ne_root (hs.valid _ (List.getLast_mem hne)) (hs.apart _ (List.getLast_mem hne))).symm
  have hdisk : s'.disk = s.disk ∨
      s'.disk = s.afterStore slot (chain.getLast hne) f.data f.length := by
    rw [hd, FatState.appendDisk]
    split_ifs with h01 h2 h45
    · exact absurd ⟨(by simpa using h01 : _ ∧ _).1, (by simpa using h01 : _ ∧ _).2, h2,
        (by simpa using h45 : _ ∧ _).1, (by simpa using h45 : _ ∧ _).2⟩ hreq
    · exact .inr rfl
    · exact .inl rfl
    · exact .inl rfl
  have hempty (h0 : f.length = 0) :
      s.afterStore slot (chain.getLast hne) f.data f.length = s.disk := by
    rw [FatState.afterStore, FatState.copied, h0, Nat.zero_min, bytesAt_zero, Sector.put, put_nil,
      toSector_buf, Function.update_eq_self, ite_self]
  rcases hdisk with h | h
  · exact ⟨rootDir_of_disk hg h, fun _ => h⟩
  · refine ⟨?_, fun h0 => h.trans (hempty h0)⟩
    rw [FatState.rootDir, FatState.rootDir, h, hg, FatState.afterStore_of_ne _ _ _ hroot]

omit hne hlow in
/-- No data has nothing to be placed. -/
theorem lands_of_empty
    (hreq : s.io 0 = true ∧ s.io 1 = true ∧ s.io 2 = true ∧ s.io 4 = true ∧ s.io 5 = true)
    (hzero : f.length = 0) : s.Lands slot chain f where
  requests := hreq
  fits := by omega
  room := by
    have hle := hs.size_le
    rw [hw.dirSector_eq hslot, Nat.mod_eq_of_lt hslot] at hle
    rw [hzero, Nat.add_zero]
    exact hle
  placed := by
    have hshows (n : ℕ) : s.Shows n (slotSize s.rootDir slot) f := by
      rw [shows_iff, hzero]
      omega
    exact .inr ⟨hshows _, .inr (.inr (hshows _))⟩

/-- **A call that finds the file** stores its data in these cases. -/
theorem append_stores_present {fuel : ℕ} (hfuel : 126 ≤ fuel) :
    ∃ s', fsAppendFileContent fuel f.filename f.data f.length s = some s' ∧
      s'.toGeometry = s.toGeometry ∧
      (s'.HasBytes count root f.filename (s.content root slot chain ++ f.bytes) ↔
        f.length = 0 ∨ s.Lands slot chain f) ∧
      (s'.HasBytes count root f.filename (s.content root slot chain ++ f.bytes) →
        s'.Stores count root f.filename slot chain) := by
  obtain ⟨s', happ, hg, hd⟩ := append_of_stores (f := f) hw hs hslot hne hlow hfuel
  refine ⟨s', happ, hg, ?_⟩
  have hsize : (s.content root slot chain).length = slotSize s.rootDir slot := by
    rw [FatState.content_length, hw.dirSector_eq hslot, Nat.mod_eq_of_lt hslot]
    rfl
  by_cases hreq : s.io 0 = true ∧ s.io 1 = true ∧ s.io 2 = true ∧ s.io 4 = true ∧ s.io 5 = true
  · obtain ⟨h0, h1, h2, h4, h5⟩ := hreq
    rw [if_pos (by simp [h0, h1]), appendDisk_replaced hw hs hne h2 h4 h5] at hd
    have A := appendable_withMemory s.diskBuffer hw hs hslot hne hlow
    have hcopied : s.copied slot f.length ≤ 512 :=
      Nat.le_trans (Nat.min_le_right _ _) (Nat.sub_le _ _)
    have hstores (h : s'.HasBytes count root f.filename (s.content root slot chain ++ f.bytes)) :
        s'.Stores count root f.filename slot chain := by
      have hroom := room_of_replaced hw hs hslot hne hlow hg hd hcopied h
      exact (A.stores_replaced hg hd hroom).1
    refine ⟨?_, hstores⟩
    rw [hasBytes_replaced hw hs hslot hne hlow hg hd hcopied, content_of_stores hw hslot]
    have hlands (hfits : f.length ≤ 512 - slotSize s.rootDir slot % 512)
        (hroom : slotSize s.rootDir slot + f.length ≤ 512 * (s.sectorsPerCluster * chain.length)) :=
      fileBytes_stamped_iff hw hs hslot hne hlow hg hd hfits hroom
    constructor
    · rintro ⟨hroom, hbytes⟩
      have hlen := congrArg List.length hbytes
      simp only [FatState.fileBytes, List.length_append, List.length_map, List.length_range,
        NewFile.bytes_length] at hlen
      have hfits : f.length ≤ 512 - slotSize s.rootDir slot % 512 := by
        rw [FatState.copied] at hlen
        omega
      rw [copied_eq hfits] at hroom hbytes
      exact .inr ⟨⟨h0, h1, h2, h4, h5⟩, hfits, hroom, (hlands hfits hroom).1 hbytes⟩
    · intro h
      have hl : s.Lands slot chain f :=
        h.elim (lands_of_empty hw hs hslot ⟨h0, h1, h2, h4, h5⟩) id
      rw [copied_eq hl.fits]
      exact ⟨hl.room, (hlands hl.fits hl.room).2 hl.placed⟩
  · obtain ⟨hroot, hempty⟩ := append_unsized hw hs hne hg hd hreq
    have hzero (h : s'.HasBytes count root f.filename (s.content root slot chain ++ f.bytes)) :
        f.length = 0 := by
      obtain ⟨hw', ⟨hnone, -⟩ | ⟨slot', chain', hlt', hs', hc⟩⟩ := h
      · rw [hroot, appendSlot_of_stores hw hs hslot] at hnone
        simp at hnone
      · have hslot' := appendSlot_of_stores hw' hs' hlt'
        rw [hroot, appendSlot_of_stores hw hs hslot] at hslot'
        obtain rfl := Option.some.inj hslot'
        have hlen := congrArg List.length hc
        rw [List.length_append, hsize, FatState.content_length, hw'.dirSector_eq hslot,
          Nat.mod_eq_of_lt hslot, NewFile.bytes_length] at hlen
        have hsame : slotSize (s'.disk s'.rootSector).buf slot = slotSize s.rootDir slot :=
          congrArg (slotSize · slot) hroot
        omega
    refine ⟨⟨fun h => .inl (hzero h), ?_⟩, fun h => hs.of_disk hg (hempty (hzero h))⟩
    rintro (h0 | hl)
    · have hbytes : f.bytes = [] := List.eq_nil_of_length_eq_zero (f.bytes_length.trans h0)
      rw [hbytes, List.append_nil]
      exact ((hasBytes_of_stores hw hs hslot).2 rfl).of_disk hg (hempty h0)
    · exact absurd hl.requests hreq

end

/-! ### There is no file -/

section
variable (hw : s.WellFormed count root) (h0 : s.io 0 = true)
  (hc : freeCluster (s.disk s.fatStartSector).buf = some c) (hv : ValidCluster count c)
  (hnone : appendSlot s.rootDir (formatFatName f.filename) = none)

include hw h0 hc hv

/-- The volume stays one. -/
theorem wellFormed_store : (s.store f).WellFormed count root := by
  have hg : (s.store f).toGeometry = s.toGeometry := (write_later s).geometry
  have hentry {c' : ℕ} (hc' : c' ∈ root) : (s.store f).entry c' = s.entry c' := by
    have hne : c' ≠ c := fun heq => hw.not_mem_root hc (heq ▸ hc')
    rw [store_entry hw h0 hc hv (hw.root_valid c' hc'), if_neg fun h => hne h.1]
  refine ⟨by rw [hg]; exact hw.layout, ?_, hw.root_valid, fun c' hc' => ?_⟩
  · rw [hg]
    exact hw.rootChain.congr fun c' hc' => FatState.next_congr (hentry hc')
  · rw [hentry hc']
    exact hw.root_taken c' hc'

include hnone

/-- Without a slot there is still no file. -/
theorem appendSlot_of_unfilled (hfilled : s.filled = none) :
    appendSlot (s.store f).rootDir (formatFatName f.filename) = none := by
  have hg : (s.store f).toGeometry = s.toGeometry := (write_later s).geometry
  have hroot := store_root (f := f) hw h0 hc hv
  rw [hfilled] at hroot
  rwa [FatState.rootDir, hg, hroot]

/-- A slot that is filled has the name. -/
theorem appendSlot_of_filled (hi : s.filled = some i) :
    appendSlot (s.store f).rootDir (formatFatName f.filename) = some i := by
  have hlt := (filled_bounds hw hi).1
  have hlen := formatFatName_length f.filename
  have hdir : ∀ k < 512, (s.store f).rootDir k =
      withEntry s.rootDir i (formatFatName f.filename) c f.length k := by
    intro k hk
    have hdirk := store_filled (f := f) hw h0 hc hv hi k hk
    rw [store_dirSector_low hw hlt] at hdirk
    rw [FatState.rootDir, show (s.store f).toGeometry = s.toGeometry from (write_later s).geometry,
      hdirk]
  refine appendSlot_eq_some_iff.2 ⟨hlt, ?_, fun j hj => ?_⟩
  · rw [slotName_congr hdir hlt, slotName_withEntry_self hlen]
  · rw [slotName_congr hdir (by omega), slotName_withEntry_of_ne hlen (Nat.ne_of_lt hj)]
    have hall := List.find?_eq_none.1 hnone j (List.mem_range.2 (by omega))
    simpa using hall

/-- **The new file** is there if the FAT sector is written, with cluster `c` alone. -/
theorem stores_filled_iff (hlen : f.length < 2 ^ 32) (hi : s.filled = some i) {chain : List ℕ} :
    (s.store f).Stores count root f.filename i chain ↔
      s.io 1 = true ∧ chain = [c] ∧ f.length ≤ 512 * s.sectorsPerCluster := by
  have hg : (s.store f).toGeometry = s.toGeometry := (write_later s).geometry
  obtain ⟨hlt, -, hbefore⟩ := filled_bounds hw hi
  obtain ⟨hname, hcluster, hsize⟩ := store_filled_fields (f := f) hw h0 hc hv hi
  have hslots : i < 16 * (s.sectorsPerCluster * root.length) := by
    have := Nat.mul_pos hw.layout.sectorsPerCluster_pos hw.rootChain.length_pos
    omega
  have hentry := store_entry (f := f) hw h0 hc hv hv
  have hlast (h1 : s.io 1 = true) : Chain (s.store f).next c [c] := by
    have hmark : (s.store f).entry c = 0x0FFFFFFF := by rw [hentry, if_pos ⟨rfl, h1⟩]
    refine .last ?_
    rw [FatState.next, hmark, if_neg (by decide)]
  have hkept {j : ℕ} (hj : j < i) : s.Kept (s.store f) root j :=
    store_kept hw h0 hc hv (Nat.lt_trans hj hslots) fun k hk => by
      obtain rfl := Option.some.inj (hi.symm.trans hk)
      omega
  constructor
  · intro h
    have hchain : Chain (s.store f).next c chain := by
      rcases h.fileChain with hchain | ⟨hzero, -⟩
      · exact hcluster ▸ hchain
      · have hnonzero := (freeCluster_bounds hc).1
        rw [show slotCluster ((s.store f).dirSector root i) (i % 16) = c from hcluster] at hzero
        omega
    have h1 : s.io 1 = true := by
      by_contra hio
      refine h.taken c hchain.mem_start ?_
      rw [hentry, if_neg fun h => hio h.2]
      exact entry_of_freeCluster hc
    obtain rfl := hchain.unique (hlast h1)
    have hle := h.size_le
    rw [hsize hlen, hg, List.length_singleton, Nat.mul_one] at hle
    exact ⟨h1, rfl, hle⟩
  · rintro ⟨h1, rfl, hroom⟩
    refine ⟨by rw [hg]; exact hslots, fun n hn => ?_, hname, fun n hn => ?_, .inl ?_, ?_, ?_, ?_, ?_⟩
    · rcases Nat.lt_or_eq_of_le hn with hlt' | rfl
      · have hbyte := hkept hlt' 0 (by decide)
        rw [FatState.slotByte, Nat.add_zero] at hbyte
        rw [hbyte]
        exact hbefore n hlt'
      · exact (store_filled_bytes (f := f) hw h0 hc hv hi).2.1
    · have hall : slotName s.rootDir n ≠ formatFatName f.filename := by
        simpa using List.find?_eq_none.1 hnone n (List.mem_range.2 (by omega))
      rw [(hkept hn).name_eq, hw.dirSector_eq (by omega), Nat.mod_eq_of_lt (by omega)]
      exact hall
    · rw [show slotCluster ((s.store f).dirSector root i) (i % 16) = c from hcluster]
      exact hlast h1
    · intro c' hc'
      rwa [List.mem_singleton.1 hc']
    · intro c' hc'
      rw [List.mem_singleton.1 hc', hentry, if_pos ⟨rfl, h1⟩]
      decide
    · intro c' hc'
      rw [List.mem_singleton.1 hc']
      exact hw.not_mem_root hc
    · rw [hsize hlen, hg, List.length_singleton, Nat.mul_one]
      exact hroom

/-- **A write that fills a slot** makes a file with the data in these cases. -/
theorem hasBytes_filled_iff (hlen : f.length < 2 ^ 32) (hi : s.filled = some i) :
    (s.store f).HasBytes count root f.filename f.bytes ↔ s.io 1 = true ∧ s.WillHold c f := by
  have hg : (s.store f).toGeometry = s.toGeometry := (write_later s).geometry
  have hw' := wellFormed_store (f := f) hw h0 hc hv
  have hlt := (filled_bounds hw hi).1
  have hfound := appendSlot_of_filled hw h0 hc hv hnone hi
  have hstores {chain : List ℕ} : (s.store f).Stores count root f.filename i chain ↔
      s.io 1 = true ∧ chain = [c] ∧ f.length ≤ 512 * s.sectorsPerCluster :=
    stores_filled_iff hw h0 hc hv hnone hlen hi
  have hcontent (hroom : f.length ≤ 512 * s.sectorsPerCluster) :
      (s.store f).content root i [c] = f.bytes ↔ s.WillHold c f := by
    have hsize := (store_filled_fields (f := f) hw h0 hc hv hi).2.2 hlen
    rw [← store_data_iff hw h0 hc hv hroom, FatState.content, hsize, FatState.fileBytes,
      NewFile.bytes, bytesAt, List.map_inj_left]
    simp only [List.mem_range, Nat.zero_add]
    refine forall₂_congr fun k hk => ?_
    have hj : k / 512 < s.sectorsPerCluster := Nat.div_lt_of_lt_mul (by omega)
    rw [FatState.fileByte, hg, Geometry.chainSector_eq (by
      rw [Nat.div_eq_of_lt hj]
      exact Nat.one_pos), Nat.mod_eq_of_lt hj]
    simp only [Nat.div_eq_of_lt hj, List.getElem_cons_zero]
  constructor
  · rintro ⟨-, ⟨habsent, -⟩ | ⟨slot, chain, hslot, hs, hbytes⟩⟩
    · rw [hfound] at habsent
      simp at habsent
    · obtain rfl := Option.some.inj (hfound.symm.trans (appendSlot_of_stores hw' hs hslot))
      obtain ⟨h1, rfl, hroom⟩ := hstores.1 hs
      exact ⟨h1, (hcontent hroom).1 hbytes⟩
  · rintro ⟨h1, hhold⟩
    refine (hasBytes_of_stores hw' (hstores.2 ⟨h1, rfl, hhold.room⟩) hlt).2 ?_
    exact (hcontent hhold.room).2 hhold

end

/-- Where the name is absent, the data is there only if it is none. -/
theorem hasBytes_absent_iff (hw : s.WellFormed count root)
    (hnone : appendSlot s.rootDir (formatFatName f.filename) = none) :
    (s.HasBytes count root f.filename f.bytes ↔ f.length = 0) ∧
      s.LowFile count root f.filename := by
  rw [hasBytes_of_absent hw hnone, ← f.bytes_length, List.length_eq_zero_iff]
  refine ⟨Iff.rfl, fun slot chain hslot hs => ?_⟩
  rw [appendSlot_of_stores hw hs hslot] at hnone
  simp at hnone

/-- **A write that takes a cluster and a slot.** -/
theorem hasBytes_of_takes (hw : s.WellFormed count root) (hcount : 126 ≤ count)
    (hlen : f.length < 2 ^ 32)
    (hnone : appendSlot s.rootDir (formatFatName f.filename) = none) (htakes : ∃ c, s.Takes c) :
    ((s.store f).HasBytes count root f.filename f.bytes ↔ s.Creates f) ∧
      ((s.store f).HasBytes count root f.filename f.bytes →
        (s.store f).LowFile count root f.filename) := by
  obtain ⟨c, hio, hc, hsome⟩ := htakes
  obtain ⟨i, hi⟩ := Option.isSome_iff_exists.1 hsome
  have hv : ValidCluster count c := by
    have := freeCluster_bounds hc
    exact ⟨this.1, by omega⟩
  have hcreates : s.Creates f ↔ s.io 1 = true ∧ s.WillHold c f := by
    constructor
    · rintro ⟨c', ⟨-, hc', -⟩, h⟩
      obtain rfl := Option.some.inj (hc.symm.trans hc')
      exact h
    · exact fun h => ⟨c, ⟨hio, hc, hsome⟩, h⟩
  rw [hasBytes_filled_iff hw hio hc hv hnone hlen hi, hcreates]
  refine ⟨Iff.rfl, fun h slot chain hslot hs => ?_⟩
  have hw' := wellFormed_store (f := f) hw hio hc hv
  have hnew := (stores_filled_iff hw hio hc hv hnone hlen hi).2 ⟨h.1, rfl, h.2.room⟩
  obtain ⟨-, rfl⟩ := stores_slot_unique hw' hnew (filled_bounds hw hi).1 hs hslot
  have hlow := (freeCluster_bounds hc).2
  simpa using hlow

/-- **Another write** leaves the name absent. -/
theorem absent_of_not_takes (hw : s.WellFormed count root) (hcount : 126 ≤ count)
    (hnone : appendSlot s.rootDir (formatFatName f.filename) = none) (htakes : ¬ ∃ c, s.Takes c) :
    (s.store f).WellFormed count root ∧
      appendSlot (s.store f).rootDir (formatFatName f.filename) = none := by
  have hg : (s.store f).toGeometry = s.toGeometry := (write_later s).geometry
  by_cases hstuck : s.io 0 = false ∨ freeCluster (s.disk s.fatStartSector).buf = none
  · have hd : (s.store f).disk = s.disk := disk_write_of_stuck hstuck
    exact ⟨hw.of_disk hg hd, by rw [rootDir_of_disk hg hd, hnone]⟩
  · obtain ⟨hio, hfree⟩ := not_or.1 hstuck
    have hio : s.io 0 = true := by simpa using hio
    obtain ⟨c, hc⟩ := Option.ne_none_iff_exists'.1 hfree
    have hv : ValidCluster count c := by
      have := freeCluster_bounds hc
      exact ⟨this.1, by omega⟩
    have hfilled : s.filled = none := by
      by_contra hsome
      exact htakes ⟨c, hio, hc, Option.isSome_iff_ne_none.2 hsome⟩
    exact ⟨wellFormed_store hw hio hc hv, appendSlot_of_unfilled hw hio hc hv hnone hfilled⟩

/-- **A call that finds no file** stores its data in these cases. -/
theorem append_stores_absent (hw : s.WellFormed count root) (hcount : 126 ≤ count)
    (hlen : f.length < 2 ^ 32)
    (hnone : appendSlot s.rootDir (formatFatName f.filename) = none) (fuel : ℕ) :
    ∃ s', fsAppendFileContent fuel f.filename f.data f.length s = some s' ∧
      s'.toGeometry = s.toGeometry ∧
      (s'.HasBytes count root f.filename f.bytes ↔
        s.io 0 = true ∧ s.searched.Creates f ∨
          f.length = 0 ∧ ¬ (s.io 0 = true ∧ ∃ c, s.searched.Takes c)) ∧
      (s'.HasBytes count root f.filename f.bytes → s'.LowFile count root f.filename) := by
  cases h0 : s.io 0 with
  | false =>
      refine ⟨{ s with io := s.nextIo }, ?_, rfl, ?_⟩
      · rw [fsAppendFileContent, s.readDisk_false _ h0]
      · obtain ⟨hiff, hlow⟩ := @hasBytes_absent_iff { s with io := s.nextIo } count root f
          (FatState.WellFormed.of_disk (s := s) rfl rfl hw) hnone
        rw [hiff]
        exact ⟨by simp, fun _ => hlow⟩
  | true =>
      have hu : s.searched.toGeometry = s.toGeometry ∧ s.searched.disk = s.disk := by
        rw [FatState.searched, s.readDisk_true _ h0]
        exact ⟨rfl, rfl⟩
      have hwu : s.searched.WellFormed count root := hw.of_disk hu.1 hu.2
      have hnoneu : appendSlot s.searched.rootDir (formatFatName f.filename) = none := by
        rw [rootDir_of_disk hu.1 hu.2, hnone]
      have happ : fsAppendFileContent fuel f.filename f.data f.length s =
          some (s.searched.store f) := by
        rw [FatState.searched, s.readDisk_true _ h0, fsAppendFileContent, s.readDisk_true _ h0]
        simp only [appendSlot_load, show appendSlot (s.disk s.rootSector).buf
          (formatFatName f.filename) = none from hnone]
        rfl
      refine ⟨s.searched.store f, happ, ?_, ?_⟩
      · exact (write_later s.searched).geometry.trans hu.1
      · simp only [true_and]
        by_cases htakes : ∃ c, s.searched.Takes c
        · obtain ⟨hiff, hlow⟩ := hasBytes_of_takes hwu hcount hlen hnoneu htakes
          exact ⟨hiff.trans (by simp [htakes]), hlow⟩
        · have hcreates : ¬ s.searched.Creates f := by
            rintro ⟨c, h, -⟩
            exact htakes ⟨c, h⟩
          obtain ⟨hw', hnone'⟩ := absent_of_not_takes hwu hcount hnoneu htakes
          obtain ⟨hiff, hlow⟩ := hasBytes_absent_iff hw' hnone'
          rw [hiff]
          exact ⟨by simp [hcreates, htakes], fun _ => hlow⟩

/-! ### Any call -/

/-- Where the data is stored the file is as the kernel makes it. -/
theorem FatState.AppendStoresAll.lowFile (hw : s.WellFormed count root)
    (h : s.AppendStoresAll count root f) : s.LowFile count root f.filename := by
  intro slot chain hslot hs
  rcases h with ⟨slot', chain', hslot', hs', hne, hlow, -⟩ | ⟨hnone, -⟩
  · obtain ⟨-, rfl⟩ := stores_slot_unique hw hs' hslot' hs hslot
    exact ⟨hne, hlow⟩
  · rw [appendSlot_of_stores hw hs hslot] at hnone
    simp at hnone

/-- **When an append stores its data**: in the cases of `AppendStoresAll`. -/
theorem append_stores_iff (hcount : 126 ≤ count) (hlen : f.length < 2 ^ 32)
    (hbytes : s.HasBytes count root f.filename bytes) (hlow : s.LowFile count root f.filename)
    {fuel : ℕ} (hfuel : 126 ≤ fuel) :
    ∃ s', fsAppendFileContent fuel f.filename f.data f.length s = some s' ∧
      (s'.HasBytes count root f.filename (bytes ++ f.bytes) ↔ s.AppendStoresAll count root f) ∧
      (s'.HasBytes count root f.filename (bytes ++ f.bytes) → s'.LowFile count root f.filename) := by
  obtain ⟨hw, ⟨hnone, rfl⟩ | ⟨slot, chain, hslot, hs, rfl⟩⟩ := hbytes
  · obtain ⟨s', happ, -, hiff, hlow'⟩ := append_stores_absent hw hcount hlen hnone fuel
    refine ⟨s', happ, ?_, hlow'⟩
    rw [List.nil_append, hiff, FatState.AppendStoresAll]
    constructor
    · exact fun h => .inr ⟨hnone, h⟩
    · rintro (⟨slot, chain, hslot, hs, -⟩ | ⟨-, h⟩)
      · rw [appendSlot_of_stores hw hs hslot] at hnone
        simp at hnone
      · exact h
  · obtain ⟨hne, hchain⟩ := hlow slot chain hslot hs
    obtain ⟨s', happ, -, hiff, hstores⟩ :=
      append_stores_present (f := f) hw hs hslot hne hchain hfuel
    refine ⟨s', happ, ?_, fun h slot' chain' hslot' hs' => ?_⟩
    · rw [hiff, FatState.AppendStoresAll]
      constructor
      · exact fun h => .inl ⟨slot, chain, hslot, hs, hne, hchain, h⟩
      · rintro (⟨slot', chain', hslot', hs', -, -, h⟩ | ⟨hnone, -⟩)
        · obtain ⟨rfl, rfl⟩ := stores_slot_unique hw hs hslot hs' hslot'
          exact h
        · rw [appendSlot_of_stores hw hs hslot] at hnone
          simp at hnone
    · obtain ⟨-, rfl⟩ := stores_slot_unique h.1 (hstores h) hslot hs' hslot'
      exact ⟨hne, hchain⟩

/-- An append stores its data where the file ends in the sector that is written, if it fits there
and no request fails. -/
theorem FatState.Appendable.storesAll (h : s.Appendable count root f.filename slot chain)
    (hend : EndsInLast s.sectorsPerCluster chain.length (s.content root slot chain).length)
    (hfits : (s.content root slot chain).length % 512 + f.length ≤ 512) :
    s.AppendStoresAll count root f := by
  have hsize : (s.content root slot chain).length = slotSize s.rootDir slot := by
    rw [FatState.content_length, h.dirSector_eq.1, h.dirSector_eq.2]
    rfl
  rw [hsize] at hend hfits
  refine .inl ⟨slot, chain, h.slot_lt, h.stored, h.ne_nil, h.low, .inr ⟨?_, by omega, ?_, ?_⟩⟩
  · exact ⟨h.io 0, h.io 1, h.io 2, h.io 4, h.io 5⟩
  · obtain ⟨m, hm⟩ := Nat.exists_eq_add_of_lt (List.length_pos_of_ne_nil h.ne_nil)
    have hpos := h.volume.layout.sectorsPerCluster_pos
    rw [EndsInLast, hm, Nat.zero_add, Nat.add_sub_cancel] at hend
    rw [hm, Nat.zero_add, Nat.mul_add, Nat.mul_one, Nat.mul_comm _ m]
    omega
  · exact .inl ⟨hend, h.io 3⟩

end

end Fat32
end AiOsExchange
