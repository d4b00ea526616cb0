/-
# The directory tree of a volume

The files of a volume as FAT32 means them.  The directories are the root directory and, from
there on, every subdirectory that an entry of a directory leads to (`Directory`).  A slot is in
use up to the end mark unless it is deleted or a part of a long name (`Live`), and the entry in
it owns a chain of clusters, or none if its file is empty (`Owns`).  The entries `.` and `..` of
a subdirectory own nothing.

`Consistent` is what a write relies on and what it has to keep: the clusters of the root
directory and of the entries are in use in the FAT, none is owned twice, and behind the end mark
of the root directory there are zeros only.  `Intact` is what it owes to the entries that are
there.
-/

import AiOsExchange.Fat32.NewFile

namespace AiOsExchange
namespace Fat32

open CMemory Chains

namespace FatState

/-! ### Entries -/

/-- The slots of a directory. -/
def slots (s : FatState) (dir : List ℕ) : ℕ := 16 * (s.sectorsPerCluster * dir.length)

/-- Byte `k` of slot `n` of a directory. -/
def slotByte (s : FatState) (dir : List ℕ) (n k : ℕ) : UInt8 := s.dirSector dir n (32 * (n % 16) + k)

/-- The first cluster in slot `n` of a directory. -/
def cluster (s : FatState) (dir : List ℕ) (n : ℕ) : ℕ := slotCluster (s.dirSector dir n) (n % 16)

/-- Slot `n` of a directory is in use. -/
structure Live (s : FatState) (dir : List ℕ) (n : ℕ) : Prop where
  lt : n < s.slots dir
  shown : ∀ m ≤ n, s.slotByte dir m 0 ≠ 0
  kept : s.slotByte dir n 0 ≠ 0xE5
  short : s.slotByte dir n 11 ≠ 0x0F

/-- The clusters of the file in slot `n`.  An empty file may have none. -/
structure Owns (s : FatState) (dir : List ℕ) (n : ℕ) (chain : List ℕ) : Prop where
  empty : s.cluster dir n = 0 → chain = []
  linked : s.cluster dir n ≠ 0 → Chain s.next (s.cluster dir n) chain

/-- The directories of the volume, each by its clusters. -/
inductive Directory (s : FatState) (root : List ℕ) : List ℕ → Prop
  | root : Directory s root root
  | sub {dir chain : List ℕ} {n : ℕ} (hd : Directory s root dir) (hl : s.Live dir n)
      (hdot : dir ≠ root → s.slotByte dir n 0 ≠ 0x2E) (hattr : s.slotByte dir n 11 &&& 0x10 ≠ 0)
      (ho : s.Owns dir n chain) : Directory s root chain

/-- A live entry of the volume, in slot `n` of the directory `dir`, other than `.` and `..`. -/
structure Entry (s : FatState) (root dir : List ℕ) (n : ℕ) : Prop where
  directory : s.Directory root dir
  live : s.Live dir n
  not_dot : dir ≠ root → s.slotByte dir n 0 ≠ 0x2E

/-- The clusters of a file or directory are in use, and not by the root directory. -/
def InUse (s : FatState) (count : ℕ) (root chain : List ℕ) : Prop :=
  ∀ c ∈ chain, ValidCluster count c ∧ s.entry c ≠ 0 ∧ c ∉ root

/-- **A volume in order**, with room in its first FAT sector for the clusters 2 … 127. -/
structure Consistent (s : FatState) (count : ℕ) (root : List ℕ) : Prop where
  volume : s.WellFormed count root
  enough : 126 ≤ count
  owned : ∀ dir n, s.Entry root dir n → ∃ chain, s.Owns dir n chain ∧ s.InUse count root chain
  apart : ∀ dir n dir' n' chain chain', s.Entry root dir n → s.Entry root dir' n' →
    (dir, n) ≠ (dir', n') → s.Owns dir n chain → s.Owns dir' n' chain' → ∀ c ∈ chain, c ∉ chain'
  zeros : ∀ n m k, s.slotByte root n 0 = 0 → n ≤ m → m < s.slots root → k < 32 →
    s.slotByte root m k = 0

/-- The entry in a slot is the same in `s'`. -/
def Kept (s s' : FatState) (dir : List ℕ) (n : ℕ) : Prop :=
  ∀ k < 32, s'.slotByte dir n k = s.slotByte dir n k

/-- **The entries of `s` are left alone**: each has its slot (name, cluster and size with it), its
clusters, and every byte in them. -/
structure Intact (s s' : FatState) (root : List ℕ) : Prop where
  entry : ∀ dir n, s.Entry root dir n → s'.Entry root dir n
  slot : ∀ dir n, s.Entry root dir n → s.Kept s' dir n
  clusters : ∀ dir n chain, s.Entry root dir n → s.Owns dir n chain → s'.Owns dir n chain
  bytes : ∀ dir n chain, s.Entry root dir n → s.Owns dir n chain →
    ∀ k < 512 * (s.sectorsPerCluster * chain.length), s'.fileByte chain k = s.fileByte chain k

end FatState

section
variable {s s' : FatState} {count n : ℕ} {root dir chain chain' : List ℕ}

/-! ### Slots and chains -/

theorem FatState.next_congr {c : ℕ} (h : s'.entry c = s.entry c) : s'.next c = s.next c := by
  rw [FatState.next, FatState.next, h]

/-- An entry owns one chain. -/
theorem FatState.Owns.unique (h : s.Owns dir n chain) (h' : s.Owns dir n chain') :
    chain = chain' := by
  by_cases h0 : s.cluster dir n = 0
  · rw [h.empty h0, h'.empty h0]
  · exact (h.linked h0).unique (h'.linked h0)

/-- Slots with the same bytes have the same cluster. -/
theorem FatState.Kept.cluster_eq (h : s.Kept s' dir n) : s'.cluster dir n = s.cluster dir n := by
  have hfield {o : ℕ} (ho : o + 2 ≤ 32) :
      u16 (s'.dirSector dir n) (32 * (n % 16) + o) = u16 (s.dirSector dir n) (32 * (n % 16) + o) := by
    rw [u16, u16]
    refine congrArg ofLE (bytesAt_congr fun k hk => ?_)
    rw [Nat.add_assoc]
    exact h (o + k) (by omega)
  rw [FatState.cluster, FatState.cluster, slotCluster, slotCluster, hfield (by omega),
    hfield (by omega)]

/-- **An entry keeps the clusters** that stay in the FAT as they are. -/
theorem FatState.Owns.congr (h : s.Owns dir n chain) (hk : s.Kept s' dir n)
    (heq : ∀ c ∈ chain, s'.entry c = s.entry c) : s'.Owns dir n chain := by
  constructor
  · rw [hk.cluster_eq]
    exact h.empty
  · rw [hk.cluster_eq]
    exact fun h0 => (h.linked h0).congr fun c hc => FatState.next_congr (heq c hc)

/-- A slot of a directory is in one of its clusters. -/
theorem FatState.cluster_of_slot (h : s.toGeometry.WellFormed count) (hn : n < s.slots dir) :
    n / 16 / s.sectorsPerCluster < dir.length := by
  rw [FatState.slots] at hn
  rw [Nat.div_lt_iff_lt_mul h.sectorsPerCluster_pos, Nat.mul_comm]
  omega

/-- The directories of a volume in order are the root directory and such in clusters of their
own. -/
theorem FatState.Consistent.inUse_of_directory (h : s.Consistent count root)
    (hd : s.Directory root dir) : dir = root ∨ s.InUse count root dir := by
  cases hd with
  | root => exact .inl rfl
  | sub hd hl hdot hattr ho =>
      obtain ⟨chain, ho', huse⟩ := h.owned _ _ ⟨hd, hl, hdot⟩
      rw [ho.unique ho']
      exact .inr huse

end

/-! ### The volume with one file -/

section
variable {filename content : List UInt8} {dir chain : List ℕ} {n k : ℕ}

/-- Its entry is in slot 0, and the other slots are zero. -/
theorem oneFileVolume_slotByte (hn : n < 16) (hk : k < 32) :
    (oneFileVolume filename content).slotByte [2] n k =
      if n = 0 then oneFileDir filename content k else 0 := by
  have hlen := formatFatName_length filename
  have hdir : (oneFileVolume filename content).dirSector [2] n =
      (oneFileVolume filename content).dirSector [2] 0 := by
    rw [oneFileVolume_wellFormed.dirSector_eq hn, oneFileVolume_wellFormed.dirSector_eq (by omega)]
  rw [FatState.slotByte, hdir, Nat.mod_eq_of_lt hn, oneFileVolume_dirSector (by omega)]
  split_ifs with h0
  · rw [h0, Nat.mul_zero, Nat.zero_add]
  · exact withEntry_of_ne hlen h0 hk

theorem oneFileVolume_slots : (oneFileVolume filename content).slots [2] = 16 := by
  have h : oneFileGeometry.sectorsPerCluster = 1 := by decide
  rw [FatState.slots, show (oneFileVolume filename content).sectorsPerCluster = 1 from h]
  rfl

theorem oneFileVolume_cluster : (oneFileVolume filename content).cluster [2] 0 = 3 := by
  rw [FatState.cluster, slotCluster_congr (fun _ => oneFileVolume_dirSector) (by omega), oneFileDir,
    slotCluster_withEntry_self (formatFatName_length filename) (by omega)]

theorem oneFileVolume_slot_eq_zero (hl : (oneFileVolume filename content).Live [2] n) : n = 0 := by
  have hn := hl.lt
  rw [oneFileVolume_slots] at hn
  by_contra h0
  have := hl.shown n (Nat.le_refl n)
  rw [oneFileVolume_slotByte hn (by omega), if_neg h0] at this
  exact this rfl

/-- It has no subdirectory. -/
theorem oneFileVolume_directory (hd : (oneFileVolume filename content).Directory [2] dir) :
    dir = [2] := by
  induction hd with
  | root => rfl
  | sub hd hl hdot hattr ho ih =>
      subst ih
      obtain rfl := oneFileVolume_slot_eq_zero hl
      have hbyte : oneFileDir filename content 11 = 0x20 :=
        attr_withEntry (i := 0) (formatFatName_length filename)
      rw [oneFileVolume_slotByte (by omega) (by omega), if_pos rfl, hbyte] at hattr
      exact absurd (by decide) hattr

/-- **It is in order.** -/
theorem oneFileVolume_consistent (h0 : (0 : UInt8) ∉ filename) :
    (oneFileVolume filename content).Consistent 126 [2] := by
  have hentry {dir : List ℕ} {n : ℕ} (he : (oneFileVolume filename content).Entry [2] dir n) :
      dir = [2] ∧ n = 0 := by
    obtain rfl := oneFileVolume_directory he.directory
    exact ⟨rfl, oneFileVolume_slot_eq_zero he.live⟩
  refine ⟨oneFileVolume_wellFormed, Nat.le_refl _, fun dir n he => ?_, ?_, fun n m k hz hnm hm hk => ?_⟩
  · obtain ⟨rfl, rfl⟩ := hentry he
    refine ⟨[3], ⟨?_, fun _ => ?_⟩, fun c hc => ?_⟩
    · rw [oneFileVolume_cluster]
      exact fun h => absurd h (by omega)
    · rw [oneFileVolume_cluster]
      exact .last (oneFileVolume_next (.inr rfl))
    · obtain rfl := List.mem_singleton.1 hc
      refine ⟨⟨by omega, by omega⟩, ?_, by simp⟩
      rw [oneFileVolume_entry (.inr rfl)]
      omega
  · intro dir n dir' n' chain chain' he he' hne
    obtain ⟨rfl, rfl⟩ := hentry he
    obtain ⟨rfl, rfl⟩ := hentry he'
    exact absurd rfl hne
  · rw [oneFileVolume_slots] at hm
    have hfirst : oneFileDir filename content 0 ≠ 0 :=
      withEntry_first (i := 0) (formatFatName_length filename) (nul_not_mem_formatFatName h0)
    rw [oneFileVolume_slotByte (by omega) (by omega)] at hz
    rw [oneFileVolume_slotByte hm hk]
    have hn : n ≠ 0 := by
      rintro rfl
      rw [if_pos rfl] at hz
      exact hfirst hz
    rw [if_neg (by omega)]

end

end Fat32
end AiOsExchange
