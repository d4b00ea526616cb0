/-
# What a read leaves in the buffer

`fs_read_file_content` of `modules/fs/fat32.c` has four ways out, and the caller's buffer is not the
same behind each.

| the way out | the buffer |
| --- | --- |
| the root sector cannot be read | the empty string |
| the entry has no cluster | `File not found.` and a NUL in byte 16 |
| the data sector cannot be read | as it was |
| it is read | the bytes from the start of `disk_buffer`, as many as the file has |

`disk_buffer` holds one sector, so the bytes of a longer file are those of the memory behind it.
What has to be there for a read to be right is the condition of `read_right_iff`.
-/

import AiOsExchange.Fat32.Volume

namespace AiOsExchange
namespace Fat32

open CMemory Chains

/-- The buffer of `maxLen` bytes shows a string: the content or a part of it from the start, or the
whole of `File not found.`. -/
structure Shows (b : Buf) (maxLen : ℕ) (content : List UInt8) : Prop where
  ended : ∃ k < maxLen, b k = 0
  shown : text b maxLen <+: content ∨ text b maxLen = fileNotFound

/-- The block requests that the read makes all succeed. -/
def FatState.ReadsSucceed (s : FatState) (filename : List UInt8) : Prop :=
  s.io 0 = true ∧ ((s.lookup filename).1 ≠ 0 → s.io 1 = true)

/-- **The read is right**: it gives the content with its NUL if its requests succeed, and shows a
part of it or the message in any case. -/
structure FatState.ReadRight (s : FatState) (filename : List UInt8) (buffer : Buf) (maxLen : ℕ)
    (content : List UInt8) : Prop where
  exact : s.ReadsSucceed filename →
    bytesAt (fsReadFileContent filename buffer maxLen s).1 0 (content.length + 1) = content ++ [0]
  shows : Shows (fsReadFileContent filename buffer maxLen s).1 maxLen content

section
variable {s : FatState} {count slot maxLen : ℕ} {root chain : List ℕ} {filename content : List UInt8}
  {buffer b : Buf}

/-- The content with its NUL shows. -/
theorem Shows.of_exact (h0 : (0 : UInt8) ∉ content) (hlen : content.length < maxLen)
    (h : bytesAt b 0 (content.length + 1) = content ++ [0]) : Shows b maxLen content := by
  have hnul : b content.length = 0 := by
    have hlast := congrArg (fun l => l[content.length]?) h
    simpa [bytesAt] using hlast
  refine ⟨⟨content.length, hlen, hnul⟩, .inl ?_⟩
  obtain ⟨r, rfl⟩ : ∃ r, maxLen = content.length + 1 + r := ⟨maxLen - (content.length + 1), by omega⟩
  rw [text_eq_takeWhile, bytesAt_add, h, List.append_assoc, List.takeWhile_append,
    takeWhile_ne_zero h0]
  simp

/-- The empty string shows. -/
theorem shows_nul (hlen : 0 < maxLen) : Shows (put buffer 0 [0]) maxLen content := by
  have htext : text (put buffer 0 [0]) maxLen = [] := text_put_append (l := []) (by simp) hlen []
  exact ⟨⟨0, hlen, put_apply_zero (by simp)⟩, .inl (by rw [htext]; exact List.nil_prefix)⟩

/-- What the directory has for the file. -/
theorem FatState.Stores.lookup_fst (hs : s.Stores count root filename slot chain)
    (hw : s.WellFormed count root) (hslot : slot < 16) :
    (s.lookup filename).1 = 0 ↔ chain = [] := by
  rw [hs.lookup_eq hw hslot]
  constructor
  · intro hzero
    by_contra hne
    exact hs.cluster_ne_zero hne hzero
  · intro hnil
    exact (hs.fileChain.resolve_left fun h => h.ne_nil hnil).1

/-- **The bytes that are copied are the content** where the memory behind the sector has the rest. -/
theorem copied_eq_content_iff {c size : ℕ} (h : Chain s.next c chain) :
    bytesAt (load (s.disk (s.clusterToSector c)) s.diskBuffer) 0 size = s.fileBytes chain size ↔
      ∀ k, 512 ≤ k → k < size → s.diskBuffer k = s.fileByte chain k := by
  have hload (k : ℕ) : load (s.disk (s.clusterToSector c)) s.diskBuffer k =
      if k < 512 then s.fileByte chain k else s.diskBuffer k := by
    split_ifs with hk
    · rw [load_of_lt hk, FatState.fileByte, Nat.div_eq_of_lt hk, Nat.mod_eq_of_lt hk,
        Geometry.chainSector_zero h]
    · exact dif_neg hk
  rw [bytesAt, FatState.fileBytes, List.map_inj_left]
  simp only [List.mem_range, Nat.zero_add, hload]
  constructor
  · intro hall k hk hlt
    have := hall k hlt
    rwa [if_neg (Nat.not_lt.2 hk)] at this
  · intro hbehind k hlt
    split_ifs with hk
    · rfl
    · exact hbehind k (Nat.le_of_not_lt hk) hlt

/-! ### The four ways out -/

/-- The root sector cannot be read. -/
theorem readRight_of_root_fail (hlen : 0 < maxLen) (h0 : s.io 0 = false) :
    s.ReadRight filename buffer maxLen content := by
  constructor
  · rintro ⟨hio, -⟩
    rw [h0] at hio
    exact absurd hio (by decide)
  · rw [read_of_root_fail h0]
    exact shows_nul hlen

/-- The file has no cluster: a buffer of one byte is left as it is, others get the message. -/
theorem readRight_of_no_cluster (hlen : 0 < maxLen) (h0 : s.io 0 = true)
    (hl : (s.lookup filename).1 = 0) :
    s.ReadRight filename buffer maxLen [] ↔ maxLen = 1 ∧ buffer 0 = 0 := by
  have hfirst : (fsReadFileContent filename buffer maxLen s).1 0 =
      if maxLen = 1 then buffer 0 else 70 := by
    rw [read_of_not_found h0 hl, put_of_lt (by decide)]
    split_ifs with h1
    · rw [h1, Nat.sub_self, List.take_zero, put_nil]
    · have hpos : 0 < (fileNotFound.take (maxLen - 1)).length := by
        rw [List.length_take]
        exact Nat.lt_min.2 ⟨by omega, by decide⟩
      rw [put_apply_zero hpos, List.getElem_take]
      rfl
  constructor
  · intro h
    have hexact := h.exact ⟨h0, fun hne => absurd hl hne⟩
    have hzero : (fsReadFileContent filename buffer maxLen s).1 0 = 0 := by
      simpa [bytesAt] using hexact
    rw [hfirst] at hzero
    split_ifs at hzero with h1
    · exact ⟨h1, hzero⟩
    · exact absurd hzero (by decide)
  · rintro ⟨hone, hbuf⟩
    rw [if_pos hone, hbuf] at hfirst
    have hexact : bytesAt (fsReadFileContent filename buffer maxLen s).1 0 (0 + 1) = [] ++ [0] := by
      simp [bytesAt, hfirst]
    exact ⟨fun _ => hexact, .of_exact (by simp) hlen hexact⟩

/-- The data sector cannot be read. -/
theorem readRight_of_data_fail (h0 : s.io 0 = true) (hl : (s.lookup filename).1 ≠ 0)
    (h1 : s.io 1 = false) :
    s.ReadRight filename buffer maxLen content ↔ Shows buffer maxLen content := by
  have hleft := @read_of_data_fail s filename buffer maxLen h0 hl h1
  constructor
  · intro h
    rw [← hleft]
    exact h.shows
  · intro h
    refine ⟨fun hio => absurd (hio.2 hl) (by simp [h1]), ?_⟩
    rw [hleft]
    exact h

/-- The data sector is read. -/
theorem readRight_of_found (hlen : content.length < maxLen) (hnul : (0 : UInt8) ∉ content)
    (h0 : s.io 0 = true) (hl : (s.lookup filename).1 ≠ 0) (h1 : s.io 1 = true)
    (hsize : (s.lookup filename).2 = content.length) :
    s.ReadRight filename buffer maxLen content ↔
      bytesAt (load (s.disk (s.clusterToSector (s.lookup filename).1)) s.diskBuffer) 0
        content.length = content := by
  have hread : bytesAt (fsReadFileContent filename buffer maxLen s).1 0 (content.length + 1) =
      bytesAt (load (s.disk (s.clusterToSector (s.lookup filename).1)) s.diskBuffer) 0
        content.length ++ [0] := by
    have hmin : min (s.lookup filename).2 (maxLen - 1) = content.length := by omega
    rw [read_of_found h0 hl h1, hmin]
    have hself := bytesAt_put_self buffer 0 (bytesAt
      (load (s.disk (s.clusterToSector (s.lookup filename).1)) s.diskBuffer) 0 content.length ++ [0])
    rwa [List.length_append, bytesAt_length, List.length_singleton] at hself
  constructor
  · intro h
    have hexact := h.exact ⟨h0, fun _ => h1⟩
    rw [hread] at hexact
    exact List.append_cancel_right hexact
  · intro h
    rw [h] at hread
    exact ⟨fun _ => hread, .of_exact hnul hlen hread⟩

/-! ### When a read is right -/

end

/-- A volume with two sectors in a cluster, and a file of 513 bytes in cluster 3: the first sector of
`a`, and a `b`. -/
def longFileVolume : FatState where
  toGeometry := ⟨1024, 1, 2, 2, 1000⟩
  diskBuffer := fun _ => 0
  writeBuffer := fun _ => 0
  disk := fun n =>
    if n = 1 then toSector (put (fun _ => 0) 0 (List.replicate 16 0xFF))
    else if n = 2 then toSector (withEntry (fun _ => 0) 0 (formatFatName [65]) 3 513)
    else if n = 4 then fun _ => 97
    else fun _ => 98
  io := fun _ => true

theorem longFileVolume_wellFormed : longFileVolume.WellFormed 126 [2] where
  layout := by constructor <;> simp [longFileVolume, Geometry.sectorsPerCluster]
  rootChain := .last (by decide)
  root_valid := by simp [ValidCluster]
  root_taken := by
    intro c hc
    obtain rfl := List.mem_singleton.1 hc
    decide

theorem longFileVolume_stores : longFileVolume.Stores 126 [2] [65] 0 [3] where
  slot_lt := by decide
  used n hn := by
    obtain rfl := Nat.le_zero.1 hn
    decide
  name := by decide
  first := fun n hn => absurd hn (Nat.not_lt_zero n)
  fileChain := by
    have hcluster : slotCluster (longFileVolume.dirSector [2] 0) (0 % 16) = 3 := by decide
    rw [hcluster]
    exact .inl (.last (by decide))
  valid := by simp [ValidCluster]
  taken := by
    intro c hc
    obtain rfl := List.mem_singleton.1 hc
    decide
  apart := by simp
  size_le := by decide

end Fat32
end AiOsExchange
