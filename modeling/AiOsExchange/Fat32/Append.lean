/-
# Appending to a file

`fs_append_file_content` of `modules/fs/fat32.c` takes the place of the new bytes from three
sources.

| | from |
| --- | --- |
| the sector | the first sector of the last cluster of the chain |
| the offset in it | the size in the directory entry, modulo 512 |
| the new size | the entry as it is read again, and the bytes that were copied |

They agree where the file ends in that sector (`EndsInLast`).  There a call appends as much of
the data as the rest of the sector takes (`append_spec`), which is what the comment *assumes
payload fits within the remaining space of the last sector* has in mind; a run of such calls
appends call for call (`appends_spec`).
-/

import AiOsExchange.Fat32.NewFile
import AiOsExchange.Lib.Run

namespace AiOsExchange
namespace Fat32

open CMemory Chains Runs

/-! ### The walk to the last cluster -/

/-- **The walk along a chain ends at its last cluster**, if the guard lets it. -/
theorem fatWalk_of_chain {fat : Buf} {next : ℕ → Option ℕ} {c : ℕ} {chain : List ℕ}
    (h : Chain next c chain) (hnext : ∀ c ∈ chain, next c =
      if 2 ≤ fatEntry fat c ∧ fatEntry fat c < 0x0FFFFFF8 then some (fatEntry fat c) else none)
    {maxValidClusters fuel guard : ℕ} (hguard : guard + chain.length ≤ maxValidClusters + 1)
    (hmax : maxValidClusters < 2 ^ 32) (hfuel : chain.length ≤ fuel) :
    fatWalk fat maxValidClusters fuel c guard = .stopped (chain.getLast h.ne_nil) := by
  induction h generalizing fuel guard with
  | @last a hn =>
      obtain ⟨fuel, rfl⟩ : ∃ f, fuel = f + 1 := ⟨fuel - 1, by simp at hfuel; omega⟩
      rw [hnext a (by simp)] at hn
      split_ifs at hn with hentry
      rw [fatWalk_last hentry, List.getLast_singleton]
  | @step a b l hs t ih =>
      have hl := t.length_pos
      rw [List.length_cons] at hguard hfuel
      obtain ⟨fuel, rfl⟩ : ∃ f, fuel = f + 1 := ⟨fuel - 1, by omega⟩
      rw [hnext a (by simp)] at hs
      split_ifs at hs with hentry
      obtain rfl := Option.some.inj hs
      have hmod : (guard + 1) % 2 ^ 32 = guard + 1 := Nat.mod_eq_of_lt (by omega)
      simp only [fatWalk, if_pos hentry, hmod, if_neg (show ¬ maxValidClusters < guard + 1 by omega)]
      rw [ih (fun c hc => hnext c (List.mem_cons_of_mem _ hc)) (by omega) (by omega),
        List.getLast_cons t.ne_nil]

/-! ### The file that is appended to -/

/-- A file with clusters, all with their entries in the first FAT sector, whose own entry is in the
first sector of the root directory, on a volume whose block requests succeed. -/
structure FatState.Appendable (s : FatState) (count : ℕ) (root : List ℕ) (filename : List UInt8)
    (slot : ℕ) (chain : List ℕ) : Prop where
  volume : s.WellFormed count root
  stored : s.Stores count root filename slot chain
  slot_lt : slot < 16
  ne_nil : chain ≠ []
  low : ∀ c ∈ chain, c < 128
  io : ∀ n, s.io n = true

/-- The end of a file of `size` bytes is in the first sector of the last of `m` clusters. -/
def EndsInLast (sectorsPerCluster m size : ℕ) : Prop := size / 512 = (m - 1) * sectorsPerCluster

/-- A call of `fs_append_file_content`: the memory at `data`, and `length`. -/
structure AppendArgs where
  data : Buf
  length : ℕ

/-- What a call makes of the bytes of a file: they are followed by as much of the data as fits in
the sector they end in. -/
def appendBytes (bytes : List UInt8) (call : AppendArgs) : List UInt8 :=
  bytes ++ bytesAt call.data 0 (min call.length (512 - bytes.length % 512))

section
variable {s s' : FatState} {count slot : ℕ} {root chain : List ℕ} {filename : List UInt8}

namespace FatState.Appendable

/-- The cluster in the entry. -/
def cluster (s : FatState) (slot : ℕ) : ℕ := slotCluster (s.disk s.rootSector).buf slot

theorem dirSector_eq (h : s.Appendable count root filename slot chain) :
    s.dirSector root slot = (s.disk s.rootSector).buf ∧ slot % 16 = slot :=
  ⟨h.volume.dirSector_eq h.slot_lt, Nat.mod_eq_of_lt h.slot_lt⟩

theorem fileChain (h : s.Appendable count root filename slot chain) :
    Chain s.next (cluster s slot) chain := by
  have := h.stored.chain_of_ne_nil h.ne_nil
  rwa [h.dirSector_eq.1, h.dirSector_eq.2] at this

/-- The call finds the entry. -/
theorem appendSlot_eq (h : s.Appendable count root filename slot chain) :
    appendSlot (s.disk s.rootSector).buf (formatFatName filename) = some slot :=
  h.stored.appendSlot_eq h.volume h.slot_lt

theorem length_le (h : s.Appendable count root filename slot chain) :
    chain.length ≤ count ∧ chain.length ≤ 126 := by
  have hlow : chain ⊆ List.range' 2 126 := fun c hc => by
    have := (h.stored.valid c hc).1
    have := h.low c hc
    exact List.mem_range'.2 ⟨c - 2, by omega, by omega⟩
  have hlen := h.fileChain.length_le hlow
  rw [List.length_range'] at hlen
  exact ⟨h.stored.length_le, hlen⟩

/-- **The call finds the last cluster**, given fuel for the chain. -/
theorem fatWalk_eq (h : s.Appendable count root filename slot chain) {fuel : ℕ} (b : Buf)
    (hfuel : chain.length ≤ fuel) :
    fatWalk (load (s.disk s.fatStartSector) b) s.maxValidClusters fuel (cluster s slot) 0 =
      .stopped (chain.getLast h.ne_nil) := by
  have hlen := h.length_le.1
  have hmax := h.volume.layout.count_le
  refine fatWalk_of_chain h.fileChain (fun c hc => ?_) (by omega) h.volume.layout.maxValidClusters_lt
    hfuel
  have hlow := h.low c hc
  have hentry : s.entry c = fatEntry (load (s.disk s.fatStartSector) b) c := by
    rw [FatState.entry, Nat.div_eq_of_lt hlow, Nat.mod_eq_of_lt hlow, Nat.add_zero]
    exact fatEntry_congr (fun _ hk => (load_of_lt hk).symm) hlow
  rw [FatState.next, hentry]

theorem last_valid (h : s.Appendable count root filename slot chain) :
    ValidCluster count (chain.getLast h.ne_nil) := h.stored.valid _ (List.getLast_mem _)

/-- The target sector is not the root sector. -/
theorem target_ne_root (h : s.Appendable count root filename slot chain) :
    s.clusterToSector (chain.getLast h.ne_nil) ≠ s.rootSector :=
  h.volume.sector_ne_root h.last_valid (h.stored.apart _ (List.getLast_mem _))

/-- The size of the file. -/
def size (s : FatState) (slot : ℕ) : ℕ := slotSize (s.disk s.rootSector).buf slot

theorem content_eq (h : s.Appendable count root filename slot chain) :
    s.content root slot chain = s.fileBytes chain (size s slot) := by
  rw [FatState.content, h.dirSector_eq.1, h.dirSector_eq.2, size]

theorem size_le (h : s.Appendable count root filename slot chain) :
    size s slot ≤ 512 * (s.sectorsPerCluster * chain.length) := by
  have := h.stored.size_le
  rwa [h.dirSector_eq.1, h.dirSector_eq.2] at this

/-- The directory sector with a new size in the entry. -/
def resized (dir : Buf) (slot size : ℕ) : Buf := put dir (32 * slot + 28) (toLE 4 size)

/-- The disk after sector `target` was replaced and the file has `n` more bytes. -/
def replaced (s : FatState) (slot target : ℕ) (sec : Sector) (n : ℕ) : ℕ → Sector :=
  Function.update (Function.update s.disk target sec) s.rootSector
    (toSector (resized (s.disk s.rootSector).buf slot (size s slot + n)))

/-- The disk after `n` bytes were put behind the file. -/
def appended (s : FatState) (slot target : ℕ) (data : Buf) (n : ℕ) : ℕ → Sector :=
  Function.update
    (Function.update s.disk target
      ((s.disk target).put (size s slot % 512) (bytesAt data 0 n)))
    s.rootSector (toSector (resized (s.disk s.rootSector).buf slot (size s slot + n)))

/-- **The outcome of an append.** -/
theorem append_eq (h : s.Appendable count root filename slot chain) {fuel : ℕ}
    (hfuel : chain.length ≤ fuel) (data : Buf) (length : ℕ) :
    ∃ s', fsAppendFileContent fuel filename data length s = some s' ∧ s.Later s' ∧
      s'.disk = appended s slot (s.clusterToSector (chain.getLast h.ne_nil)) data
        (min length (512 - size s slot % 512)) := by
  have hslot : appendSlot (load (s.disk s.rootSector) s.diskBuffer) (formatFatName filename) =
      some slot := by
    rw [appendSlot_load, h.appendSlot_eq]
  have hcluster : slotCluster (load (s.disk s.rootSector) s.diskBuffer) slot = cluster s slot :=
    slotCluster_load _ _ h.slot_lt
  have hsize (b : Buf) : slotSize (load (s.disk s.rootSector) b) slot = size s slot :=
    slotSize_load _ _ h.slot_lt
  have hwalk := h.fatWalk_eq (load (s.disk s.rootSector) s.diskBuffer) hfuel
  have hne := h.target_ne_root
  rw [fsAppendFileContent]
  simp only [FatState.readDisk, FatState.readWrite, FatState.writeSector, FatState.nextIo, h.io,
    if_true, hslot, hcluster, hsize, hwalk, Function.update_of_ne hne.symm]
  refine ⟨_, rfl, ⟨rfl, 6, fun _ => rfl⟩, ?_⟩
  simp only [appended, toSector_put_load]
  rfl

/-! ### The directory entry -/

theorem slotName_resized (dir : Buf) (slot v j : ℕ) :
    slotName (resized dir slot v) j = slotName dir j :=
  bytesAt_put_of_disjoint _ (by rw [toLE_length]; omega)

theorem slotCluster_resized (dir : Buf) (slot v j : ℕ) :
    slotCluster (resized dir slot v) j = slotCluster dir j := by
  have h {o : ℕ} (ho : o + 2 ≤ 28) : u16 (resized dir slot v) (32 * j + o) = u16 dir (32 * j + o) := by
    rw [u16, u16, resized, bytesAt_put_of_disjoint _ (by rw [toLE_length]; omega)]
  rw [slotCluster, slotCluster, h (by omega), h (by omega)]

theorem resized_first (dir : Buf) (slot v j : ℕ) : resized dir slot v (32 * j) = dir (32 * j) := by
  rcases Nat.lt_or_ge slot j with hlt | hge
  · exact put_of_ge (by rw [toLE_length]; omega)
  · exact put_of_lt (by omega)

theorem slotSize_resized (dir : Buf) (slot : ℕ) {v : ℕ} (hv : v < 2 ^ 32) :
    slotSize (resized dir slot v) slot = v := by
  have hself : bytesAt (resized dir slot v) (32 * slot + 28) 4 = toLE 4 v := by
    have := bytesAt_put_self dir (32 * slot + 28) (toLE 4 v)
    rwa [toLE_length] at this
  rw [slotSize, u32, hself, ofLE_toLE (by simpa using hv)]

/-! ### The file afterwards -/

section
variable (h : s.Appendable count root filename slot chain) {sec : Sector} {n : ℕ}
  (hg : s'.toGeometry = s.toGeometry)
  (hd : s'.disk = replaced s slot (s.clusterToSector (chain.getLast h.ne_nil)) sec n)

include hd hg

/-- The FAT is left alone. -/
theorem entry_replaced {c : ℕ} (hv : ValidCluster count c) : s'.entry c = s.entry c := by
  have hroot : s.fatStartSector + c / 128 ≠ s.rootSector :=
    h.volume.fat_ne h.volume.rootCluster_valid hv
  rw [FatState.entry, hd, hg, replaced, Function.update_of_ne hroot,
    Function.update_of_ne (h.volume.fat_ne h.last_valid hv)]
  rfl

theorem next_replaced {c : ℕ} (hv : ValidCluster count c) : s'.next c = s.next c := by
  rw [FatState.next, FatState.next, entry_replaced h hg hd hv]

/-- **The volume stays one.** -/
theorem wellFormed_replaced : s'.WellFormed count root where
  layout := by rw [hg]; exact h.volume.layout
  rootChain := by
    rw [hg]
    exact h.volume.rootChain.congr fun c hc => next_replaced h hg hd (h.volume.root_valid c hc)
  root_valid := h.volume.root_valid
  root_taken c hc := by
    rw [entry_replaced h hg hd (h.volume.root_valid c hc)]
    exact h.volume.root_taken c hc

/-- The directory sector has the new size. -/
theorem dirSector_replaced {j k : ℕ} (hj : j < 16) (hk : k < 512) :
    s'.dirSector root j k = resized (s.disk s.rootSector).buf slot (size s slot + n) k := by
  rw [(wellFormed_replaced h hg hd).dirSector_eq hj, hd, hg, replaced, Function.update_self,
    buf_toSector hk]

/-- **It still stores the file**, with the same clusters. -/
theorem stores_replaced (hfit : size s slot + n ≤ 512 * (s.sectorsPerCluster * chain.length)) :
    s'.Stores count root filename slot chain ∧
      slotSize (s'.dirSector root slot) slot = size s slot + n := by
  have hdir {j : ℕ} (hj : j < 16) : ∀ k < 512, s'.dirSector root j k =
      resized (s.disk s.rootSector).buf slot (size s slot + n) k :=
    fun k hk => dirSector_replaced h hg hd hj hk
  have hs := h.stored
  obtain ⟨hdirs, hmod⟩ := h.dirSector_eq
  have hslot := h.slot_lt
  have hbound : size s slot + n < 2 ^ 32 := by
    have hspc := h.volume.layout.sectorsPerCluster_lt
    have := Nat.mul_le_mul (Nat.le_of_lt hspc) h.length_le.2
    omega
  have hsize : slotSize (s'.dirSector root slot) slot = size s slot + n := by
    rw [slotSize_congr (hdir hslot) hslot, slotSize_resized _ _ hbound]
  refine ⟨⟨?_, fun j hj => ?_, ?_, fun j hj => ?_, .inl ?_, hs.valid, fun c hc => ?_, hs.apart, ?_⟩,
    hsize⟩
  · rw [hg]
    exact hs.slot_lt
  · have hj16 : j < 16 := by omega
    have := hs.used j hj
    rw [h.volume.dirSector_eq hj16, Nat.mod_eq_of_lt hj16] at this
    rwa [Nat.mod_eq_of_lt hj16, hdir hj16 _ (by omega), resized_first]
  · have := hs.name
    rw [hdirs, hmod] at this
    rwa [hmod, slotName_congr (hdir hslot) hslot, slotName_resized]
  · have hj16 : j < 16 := by omega
    have := hs.first j hj
    rw [h.volume.dirSector_eq hj16, Nat.mod_eq_of_lt hj16] at this
    rwa [Nat.mod_eq_of_lt hj16, slotName_congr (hdir hj16) hj16, slotName_resized]
  · rw [hmod, slotCluster_congr (hdir hslot) hslot, slotCluster_resized]
    exact h.fileChain.congr fun c hc => next_replaced h hg hd (hs.valid c hc)
  · rw [entry_replaced h hg hd (hs.valid c hc)]
    exact hs.taken c hc
  · rw [hmod, hsize, hg]
    exact hfit

omit hg in
/-- The sectors of the file but the last are left alone. -/
theorem chainSector_replaced {q : ℕ} (hq : q / s.sectorsPerCluster < chain.length)
    (hne : s.chainSector chain q ≠ s.clusterToSector (chain.getLast h.ne_nil)) :
    s'.disk (s.chainSector chain q) = s.disk (s.chainSector chain q) := by
  have hroot : s.chainSector chain q ≠ s.rootSector := by
    intro heq
    have hmem := List.getElem_mem hq
    rw [Geometry.chainSector_eq hq, ← Nat.add_zero s.rootSector] at heq
    have := (h.volume.layout.sector_inj (h.stored.valid _ hmem) h.volume.rootCluster_valid
      (Nat.mod_lt _ h.volume.layout.sectorsPerCluster_pos) h.volume.layout.sectorsPerCluster_pos
      heq).1
    exact h.stored.apart _ hmem (this ▸ h.volume.rootChain.mem_start)
  rw [hd, replaced, Function.update_of_ne hroot, Function.update_of_ne hne]

omit hg hd in
/-- The sector the file ends in is the target. -/
theorem chainSector_end (hend : EndsInLast s.sectorsPerCluster chain.length (size s slot)) :
    size s slot / 512 / s.sectorsPerCluster < chain.length ∧
      s.chainSector chain (size s slot / 512) = s.clusterToSector (chain.getLast h.ne_nil) := by
  have hpos := h.volume.layout.sectorsPerCluster_pos
  have hdiv : size s slot / 512 / s.sectorsPerCluster = chain.length - 1 := by
    rw [hend, Nat.mul_div_cancel _ hpos]
  have hlen := List.length_pos_of_ne_nil h.ne_nil
  have hlt : size s slot / 512 / s.sectorsPerCluster < chain.length := by omega
  refine ⟨hlt, ?_⟩
  have hmod : size s slot / 512 % s.sectorsPerCluster = 0 := by
    rw [hend, Nat.mul_mod_left]
  rw [Geometry.chainSector_eq hlt, hmod, Nat.add_zero, List.getLast_eq_getElem]
  simp only [hdiv]

/-- A byte of the file, in the sector that was replaced or in another. -/
theorem fileByte_replaced {k : ℕ} (hk : k / 512 / s.sectorsPerCluster < chain.length) :
    s'.fileByte chain k =
      if s.chainSector chain (k / 512) = s.clusterToSector (chain.getLast h.ne_nil) then
        sec.buf (k % 512)
      else s.fileByte chain k := by
  rw [FatState.fileByte, FatState.fileByte, hg]
  split_ifs with hsame
  · rw [hsame, hd, replaced, Function.update_of_ne h.target_ne_root, Function.update_self]
  · rw [chainSector_replaced h hd hk hsame]

/-- **The bytes of the file are followed by the new ones.** -/
theorem fileByte_appended {data : Buf}
    (hend : EndsInLast s.sectorsPerCluster chain.length (size s slot))
    (hsec : sec = (s.disk (s.clusterToSector (chain.getLast h.ne_nil))).put (size s slot % 512)
      (bytesAt data 0 n))
    (hn : n ≤ 512 - size s slot % 512) {k : ℕ} (hk : k < size s slot + n) :
    s'.fileByte chain k = if k < size s slot then s.fileByte chain k else data (k - size s slot) := by
  obtain ⟨hlt, htarget⟩ := chainSector_end h hend
  have hq : k / 512 ≤ size s slot / 512 := by omega
  have hqlt : k / 512 / s.sectorsPerCluster < chain.length :=
    Nat.lt_of_le_of_lt (Nat.div_le_div_right hq) hlt
  rw [fileByte_replaced h hg hd hqlt]
  by_cases hsame : k / 512 = size s slot / 512
  · rw [hsame, if_pos htarget, hsec, Sector.put, buf_toSector (Nat.mod_lt _ (by decide))]
    split_ifs with hold
    · rw [FatState.fileByte, hsame, htarget]
      exact put_of_lt (by omega)
    · obtain ⟨r, rfl⟩ := Nat.exists_eq_add_of_le (Nat.le_of_not_lt hold)
      have hoff : (size s slot + r) % 512 = size s slot % 512 + r := by omega
      rw [hoff, put_apply (by rw [bytesAt_length]; omega), Nat.add_sub_cancel_left]
      simp [bytesAt]
  · have hne : s.chainSector chain (k / 512) ≠ s.clusterToSector (chain.getLast h.ne_nil) := by
      rw [← htarget]
      exact fun heq => hsame (h.volume.layout.chainSector_inj h.stored.valid h.fileChain.nodup hqlt
        hlt heq)
    rw [if_neg hne, if_pos (by omega)]

theorem content_appended {data : Buf}
    (hend : EndsInLast s.sectorsPerCluster chain.length (size s slot))
    (hsec : sec = (s.disk (s.clusterToSector (chain.getLast h.ne_nil))).put (size s slot % 512)
      (bytesAt data 0 n))
    (hn : n ≤ 512 - size s slot % 512) :
    s'.fileBytes chain (size s slot + n) = s.fileBytes chain (size s slot) ++ bytesAt data 0 n := by
  have hold : ∀ k ∈ List.range (size s slot), s'.fileByte chain k = s.fileByte chain k := by
    intro k hk
    have hk := List.mem_range.1 hk
    rw [fileByte_appended h hg hd hend hsec hn (by omega), if_pos hk]
  have hnew : ∀ r ∈ List.range n, s'.fileByte chain (size s slot + r) = data (0 + r) := by
    intro r hr
    have hr := List.mem_range.1 hr
    rw [fileByte_appended h hg hd hend hsec hn (by omega), if_neg (by omega), Nat.add_sub_cancel_left,
      Nat.zero_add]
  rw [FatState.fileBytes, List.range_add, List.map_append, List.map_map, FatState.fileBytes, bytesAt,
    List.map_congr_left hold]
  exact congrArg _ (List.map_congr_left hnew)

end

end FatState.Appendable

open FatState.Appendable in
/-- **An append where the file ends in the target sector.** -/
theorem append_spec (h : s.Appendable count root filename slot chain) {fuel : ℕ}
    (hfuel : chain.length ≤ fuel) (call : AppendArgs)
    (hend : EndsInLast s.sectorsPerCluster chain.length (s.content root slot chain).length) :
    ∃ s', fsAppendFileContent fuel filename call.data call.length s = some s' ∧
      s'.toGeometry = s.toGeometry ∧ s'.Appendable count root filename slot chain ∧
      s'.content root slot chain = appendBytes (s.content root slot chain) call := by
  obtain ⟨s', happ, hlater, hd⟩ := h.append_eq hfuel call.data call.length
  have hg := hlater.geometry
  have hlen : (s.content root slot chain).length = size s slot := by
    rw [h.content_eq, FatState.fileBytes, List.length_map, List.length_range]
  rw [hlen] at hend
  have hpos := h.volume.layout.sectorsPerCluster_pos
  have hm := List.length_pos_of_ne_nil h.ne_nil
  have hfit : size s slot + min call.length (512 - size s slot % 512) ≤
      512 * (s.sectorsPerCluster * chain.length) := by
    obtain ⟨m, hm⟩ := Nat.exists_eq_add_of_lt hm
    rw [EndsInLast] at hend
    rw [hm, Nat.zero_add, Nat.add_sub_cancel] at hend
    rw [hm, Nat.zero_add, Nat.mul_add, Nat.mul_one, Nat.mul_comm _ m]
    omega
  obtain ⟨hs, hsize⟩ := stores_replaced h hg hd hfit
  refine ⟨s', happ, hg, ⟨wellFormed_replaced h hg hd, hs, h.slot_lt, h.ne_nil, h.low,
    hlater.io_true h.io⟩, ?_⟩
  rw [FatState.content, Nat.mod_eq_of_lt h.slot_lt, hsize, appendBytes, hlen, h.content_eq,
    content_appended h hg hd hend rfl (Nat.min_le_right _ _)]

/-! ### Runs -/

/-- The calls one after the other. -/
def appendRun (fuel : ℕ) (filename : List UInt8) : List AppendArgs → FatState → Option FatState
  | [], s => some s
  | call :: calls, s =>
      (fsAppendFileContent fuel filename call.data call.length s).bind (appendRun fuel filename calls)

/-- A run of such appends appends call for call. -/
theorem appendRun_spec (h : s.Appendable count root filename slot chain) {fuel : ℕ}
    (hfuel : chain.length ≤ fuel) {calls : List AppendArgs}
    (hends : StepsMeet appendBytes
      (fun bytes _ => EndsInLast s.sectorsPerCluster chain.length bytes.length)
      (s.content root slot chain) calls) :
    ∃ s', appendRun fuel filename calls s = some s' ∧ s'.Appendable count root filename slot chain ∧
      s'.content root slot chain = run appendBytes (s.content root slot chain) calls := by
  induction calls generalizing s with
  | nil => exact ⟨s, by rw [appendRun], h, by rw [run_nil]⟩
  | cons call calls ih =>
      obtain ⟨s₁, happ, hg, h₁, hc⟩ := append_spec h hfuel call hends.1
      have hrest := hends.2
      rw [← hc] at hrest
      rw [← hg] at hrest
      obtain ⟨s₂, hrun, h₂, hc₂⟩ := ih h₁ hrest
      refine ⟨s₂, ?_, h₂, ?_⟩
      · rw [appendRun, happ]
        exact hrun
      · rw [hc₂, hc, run_cons]

/-- **Appending.**  In a run of calls before each of which the file ends in the first sector of its
last cluster, the file has after each call its previous bytes, followed by as much of the data as
fits in that sector. -/
theorem appends_append (h : s.Appendable count root filename slot chain) {fuel : ℕ}
    (hfuel : chain.length ≤ fuel) {calls : List AppendArgs}
    (hends : StepsMeet appendBytes
      (fun bytes _ => EndsInLast s.sectorsPerCluster chain.length bytes.length)
      (s.content root slot chain) calls) :
    ∀ pre, pre <+: calls → ∃ s', appendRun fuel filename pre s = some s' ∧
      s'.Stores count root filename slot chain ∧
      s'.content root slot chain = run appendBytes (s.content root slot chain) pre := by
  intro pre hpre
  obtain ⟨s', hrun, h', hc⟩ := appendRun_spec h hfuel (hends.of_isPrefix hpre)
  exact ⟨s', hrun, h'.stored, hc⟩

end

/-! ### On the volume with one file -/

theorem oneFileVolume_appendable {filename content : List UInt8} (h0 : (0 : UInt8) ∉ filename)
    (hl : content.length ≤ 512) :
    (oneFileVolume filename content).Appendable 126 [2] filename 0 [3] where
  volume := oneFileVolume_wellFormed
  stored := oneFileVolume_stores h0 hl
  slot_lt := by decide
  ne_nil := by decide
  low := by decide
  io := fun _ => rfl

theorem oneFileVolume_sectorsPerCluster (filename content : List UInt8) :
    (oneFileVolume filename content).sectorsPerCluster = 1 :=
  (show oneFileGeometry.sectorsPerCluster = 1 by decide)

/-- `cd` is put behind `ab`. -/
theorem append_short : ∃ s',
    appendRun 1 (ascii "A") [⟨cString (ascii "cd"), 2⟩] (oneFileVolume (ascii "A") (ascii "ab")) =
      some s' ∧ s'.Stores 126 [2] (ascii "A") 0 [3] ∧ s'.content [2] 0 [3] = ascii "abcd" := by
  have hcontent : (oneFileVolume (ascii "A") (ascii "ab")).content [2] 0 [3] = ascii "ab" :=
    oneFileVolume_content (by decide)
  have happ : (oneFileVolume (ascii "A") (ascii "ab")).Appendable 126 [2] (ascii "A") 0 [3] :=
    oneFileVolume_appendable (by decide) (by decide)
  have hends : StepsMeet appendBytes (fun bytes _ => EndsInLast
      (oneFileVolume (ascii "A") (ascii "ab")).sectorsPerCluster [3].length bytes.length)
      ((oneFileVolume (ascii "A") (ascii "ab")).content [2] 0 [3]) [⟨cString (ascii "cd"), 2⟩] := by
    rw [hcontent, oneFileVolume_sectorsPerCluster]
    exact ⟨by unfold EndsInLast; decide, trivial⟩
  obtain ⟨s', hrun, hs, hc⟩ := appends_append happ (Nat.le_refl 1) hends _ (List.prefix_refl _)
  refine ⟨s', hrun, hs, ?_⟩
  rw [hc, hcontent]
  decide

/-- Of four bytes behind 510 two are appended. -/
theorem append_cut_at_sector : ¬ ∀ (s : FatState) (count : ℕ) (root : List ℕ)
    (filename : List UInt8) (slot : ℕ) (chain : List ℕ),
      s.Appendable count root filename slot chain → ∀ (fuel : ℕ) (call : AppendArgs) (s' : FatState),
        fsAppendFileContent fuel filename call.data call.length s = some s' →
          s'.content root slot chain =
              s.content root slot chain ++ bytesAt call.data 0 call.length ∨
            s'.content root slot chain = s.content root slot chain := by
  intro h
  have hl : (List.replicate 510 (97 : UInt8)).length ≤ 512 := by
    rw [List.length_replicate]
    omega
  have hname : (0 : UInt8) ∉ ascii "A" := by decide
  have hcontent := @oneFileVolume_content (ascii "A") _ hl
  have happ := oneFileVolume_appendable hname hl
  have hend : EndsInLast (oneFileVolume (ascii "A") (List.replicate 510 97)).sectorsPerCluster
      [3].length ((oneFileVolume (ascii "A") (List.replicate 510 97)).content [2] 0 [3]).length := by
    rw [hcontent, oneFileVolume_sectorsPerCluster, List.length_replicate]
    unfold EndsInLast
    decide
  obtain ⟨s', hs', -, -, hc⟩ :=
    append_spec happ (Nat.le_refl 1) ⟨cString (ascii "abcd"), 4⟩ hend
  have hlen : (s'.content [2] 0 [3]).length = 512 := by
    rw [hc, appendBytes, hcontent, List.length_append, List.length_replicate, bytesAt_length]
    decide
  rcases h _ _ _ _ _ _ happ _ ⟨cString (ascii "abcd"), 4⟩ _ hs' with hall | hnone
  · rw [hall, hcontent, List.length_append, List.length_replicate, bytesAt_length] at hlen
    exact absurd hlen (by decide)
  · rw [hnone, hcontent, List.length_replicate] at hlen
    exact absurd hlen (by decide)

end Fat32
end AiOsExchange
