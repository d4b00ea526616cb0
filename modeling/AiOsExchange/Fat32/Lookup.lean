/-
# Which files there are

Three loops of `modules/fs/fat32.c` go over the sixteen slots of the first directory sector.

| | stops at the end mark | skips deleted entries | skips long names | cluster 0 is no file |
| --- | --- | --- | --- | --- |
| `fs_get_dir_list` | yes | yes | yes | no |
| `fs_read_file_content` | yes | no | no | yes |
| `fs_append_file_content` | no | no | no | no |

What a listing shows are the lines of the slots it does not skip (`fsGetDirList_lines`), and what a
read answers is that of the entry it resolves the name to (`fsReadFileContent_readEntry`).  The three
agree on a name if the first slot that has it is shown and has a cluster (`lookups_agree_iff`).
-/

import AiOsExchange.Fat32.Outcomes

namespace AiOsExchange
namespace Fat32

open CMemory

/-! ### The listing -/

/-- The slots that the loop of `fs_get_dir_list` over these shows. -/
def shownSlots (dir : Buf) : List ℕ → List ℕ
  | [] => []
  | i :: is =>
      if dir (32 * i) = 0 then []
      else if dir (32 * i) = 0xE5 ∨ dir (32 * i + 11) = 0x0F then shownSlots dir is
      else i :: shownSlots dir is

/-- The slots that `fs_get_dir_list` shows. -/
def listedSlots (dir : Buf) : List ℕ := shownSlots dir (List.range 16)

/-- The line of a slot, in full. -/
def slotLine (dir : Buf) (i : ℕ) : List UInt8 :=
  (bytesAt dir (32 * i) 8).filter (· ≠ 32) ++
    (if dir (32 * i + 8) ≠ 32 then 46 :: (bytesAt dir (32 * i + 8) 3).filter (· ≠ 32) else []) ++ [10]

section
variable {dir : Buf} {maxLen : ℕ} {out l : List UInt8}

/-- Bytes that fit are all emitted. -/
theorem foldl_emit (h : out.length + l.length < maxLen) :
    l.foldl (emit maxLen) out = out ++ l := by
  induction l generalizing out with
  | nil => exact (List.append_nil out).symm
  | cons c l ih =>
      rw [List.length_cons] at h
      rw [List.foldl_cons, emit, if_pos (by omega), ih (by simp; omega), List.append_assoc,
        List.singleton_append]

theorem slotLine_length (dir : Buf) (i : ℕ) : (slotLine dir i).length ≤ 13 := by
  have hbase := List.length_filter_le (· ≠ 32) (bytesAt dir (32 * i) 8)
  have hext := List.length_filter_le (· ≠ 32) (bytesAt dir (32 * i + 8) 3)
  rw [bytesAt_length] at hbase hext
  rw [slotLine]
  split_ifs <;> simp only [List.length_append, List.length_cons, List.length_nil] <;> omega

/-- A line that fits is emitted in full. -/
theorem emitName_eq (i : ℕ) (h : out.length + (slotLine dir i).length < maxLen) :
    emitName maxLen dir i out = out ++ slotLine dir i := by
  by_cases hext : dir (32 * i + 8) ≠ 32
  · rw [slotLine, if_pos hext] at h ⊢
    simp only [List.length_append, List.length_cons, List.length_nil] at h
    rw [emitName, foldl_emit (by omega), if_pos ⟨hext, by rw [List.length_append]; omega⟩,
      foldl_emit (by simp only [List.length_append, List.length_singleton]; omega), emit,
      if_pos (by simp only [List.length_append, List.length_singleton]; omega)]
    simp
  · rw [slotLine, if_neg hext] at h ⊢
    simp only [List.length_append, List.length_cons, List.length_nil] at h
    rw [emitName, foldl_emit (by omega), if_neg fun hc => hext hc.1, emit,
      if_pos (by rw [List.length_append]; omega)]
    simp

/-- The loop emits the lines of the slots it shows. -/
theorem listSlots_eq (is : List ℕ) (h : out.length + 13 * is.length < maxLen) :
    listSlots maxLen dir is out = out ++ (shownSlots dir is).flatMap (slotLine dir) := by
  induction is generalizing out with
  | nil => simp [listSlots, shownSlots]
  | cons i is ih =>
      rw [List.length_cons] at h
      have hline := slotLine_length dir i
      rw [listSlots, shownSlots]
      split_ifs with hend hskip
      · simp
      · exact ih (by omega)
      · rw [emitName_eq i (by omega), ih (by rw [List.length_append]; omega), List.flatMap_cons,
          List.append_assoc]

/-- **A listing shows the lines of its slots**, given room for sixteen lines. -/
theorem fsGetDirList_lines {s : FatState} (buffer : Buf) (h0 : s.io 0 = true)
    (hmax : 208 < maxLen) :
    (fsGetDirList buffer maxLen s).1 =
      put buffer 0 ((listedSlots (load (s.disk s.rootSector) s.diskBuffer)).flatMap
        (slotLine (load (s.disk s.rootSector) s.diskBuffer)) ++ [0]) := by
  rw [fsGetDirList, s.readDisk_true _ h0]
  simp only
  rw [listSlots_eq _ (by simpa using hmax)]
  rfl

/-- The slots that are shown of those from `a` on: up to the end mark, neither deleted nor a part
of a long name. -/
theorem mem_shownSlots_iff (a n i : ℕ) :
    i ∈ shownSlots dir (List.range' a n) ↔ (a ≤ i ∧ i < a + n) ∧
      (∀ j, a ≤ j → j ≤ i → dir (32 * j) ≠ 0) ∧ dir (32 * i) ≠ 0xE5 ∧ dir (32 * i + 11) ≠ 0x0F := by
  induction n generalizing a with
  | zero => exact iff_of_false (by simp [shownSlots]) fun h => by omega
  | succ n ih =>
      have hsplit (hne : dir (32 * a) ≠ 0) : (∀ j, a ≤ j → j ≤ i → dir (32 * j) ≠ 0) ↔
          ∀ j, a + 1 ≤ j → j ≤ i → dir (32 * j) ≠ 0 := by
        refine ⟨fun h j hj => h j (by omega), fun h j hj hji => ?_⟩
        rcases Nat.eq_or_lt_of_le hj with rfl | hlt
        · exact hne
        · exact h j hlt hji
      rw [List.range'_succ, shownSlots]
      split_ifs with hend hskip
      · refine iff_of_false List.not_mem_nil fun h => ?_
        exact h.2.1 a (Nat.le_refl a) h.1.1 hend
      · rw [ih, hsplit hend]
        rcases Nat.lt_trichotomy i a with hia | rfl | hia
        · exact iff_of_false (fun h => by omega) fun h => by omega
        · exact iff_of_false (fun h => by omega) fun h => hskip.elim h.2.2.1 h.2.2.2
        · exact and_congr_left fun _ => by omega
      · rw [List.mem_cons, ih, hsplit hend]
        rcases Nat.lt_trichotomy i a with hia | rfl | hia
        · exact iff_of_false (fun h => by omega) fun h => by omega
        · refine iff_of_true (.inl rfl) ⟨by omega, fun j hj hji => by omega, ?_, ?_⟩
          · exact fun h => hskip (.inl h)
          · exact fun h => hskip (.inr h)
        · rw [or_iff_right (by omega)]
          exact and_congr_left fun _ => by omega

/-- **The slots of a listing**: up to the end mark, neither deleted nor a part of a long name. -/
theorem mem_listedSlots_iff {i : ℕ} :
    i ∈ listedSlots dir ↔ i < 16 ∧ (∀ j ≤ i, dir (32 * j) ≠ 0) ∧ dir (32 * i) ≠ 0xE5 ∧
      dir (32 * i + 11) ≠ 0x0F := by
  rw [listedSlots, List.range_eq_range', mem_shownSlots_iff]
  simp

/-! ### The two searches -/

theorem appendSlot_eq_some_iff {target : List UInt8} {i : ℕ} :
    appendSlot dir target = some i ↔ i < 16 ∧ slotName dir i = target ∧
      ∀ j < i, slotName dir j ≠ target := by
  simp only [appendSlot, List.find?_range_eq_some, List.mem_range, decide_eq_true_eq,
    Bool.not_eq_true', decide_eq_false_iff_not]
  tauto

/-- **A read looks for the entry of an append, up to the end mark.** -/
theorem readSlot_eq_filter (dir : Buf) (target : List UInt8) :
    readSlot dir target = (appendSlot dir target).filter fun i =>
      decide (∀ j < i + 1, dir (32 * j) ≠ 0) := by
  apply Option.ext
  intro i
  rw [readSlot_eq_some_iff, Option.filter_eq_some_iff, appendSlot_eq_some_iff, decide_eq_true_eq]
  constructor
  · rintro ⟨hi, hne, hname, hbefore⟩
    refine ⟨⟨hi, hname, fun j hj => (hbefore j hj).2⟩, fun j hj => ?_⟩
    rcases Nat.eq_or_lt_of_le (Nat.le_of_lt_succ hj) with rfl | hlt
    · exact hne
    · exact (hbefore j hlt).1
  · rintro ⟨⟨hi, hname, hbefore⟩, hused⟩
    exact ⟨hi, hused i (Nat.lt_succ_self i), hname, fun j hj => ⟨hused j (by omega), hbefore j hj⟩⟩

end

/-! ### The answer of a read -/

/-- The entry `fs_read_file_content` resolves a name to: one without a cluster is none. -/
def readEntry (dir : Buf) (target : List UInt8) : Option ℕ :=
  (readSlot dir target).filter fun i => slotCluster dir i ≠ 0

/-- What a read leaves that has resolved its name to this entry. -/
def FatState.readOf (s : FatState) (buffer : Buf) (maxLen : ℕ) : Option ℕ → Buf
  | none => put (put buffer 0 (fileNotFound.take (maxLen - 1))) 16 [0]
  | some i =>
      if s.io 1 = true then
        put buffer 0 (bytesAt
          (load (s.disk (s.clusterToSector (slotCluster (s.disk s.rootSector).buf i))) s.diskBuffer) 0
          (min (slotSize (s.disk s.rootSector).buf i) (maxLen - 1)) ++ [0])
      else buffer

section
variable {s : FatState} {filename target : List UInt8} {dir : Buf}

theorem readEntry_of_cluster {i : ℕ} (hr : readSlot dir target = some i)
    (hc : slotCluster dir i ≠ 0) : readEntry dir target = some i := by
  rw [readEntry, hr, Option.filter_some, if_pos (decide_eq_true hc)]

theorem slotCluster_of_readEntry {i : ℕ} (h : i ∈ readEntry dir target) : slotCluster dir i ≠ 0 :=
  of_decide_eq_true (Option.filter_eq_some_iff.1 h).2

/-- **A read answers for the entry it resolves the name to.** -/
theorem fsReadFileContent_readEntry (buffer : Buf) (maxLen : ℕ) (h0 : s.io 0 = true) :
    (fsReadFileContent filename buffer maxLen s).1 =
      s.readOf buffer maxLen (readEntry (s.disk s.rootSector).buf (formatFatName filename)) := by
  cases hr : readSlot (s.disk s.rootSector).buf (formatFatName filename) with
  | none =>
      have hl : s.lookup filename = (0, 0) := by rw [FatState.lookup, readTarget, hr]
      rw [read_of_not_found h0 (by rw [hl]), readEntry, hr]
      rfl
  | some i =>
      have hl : s.lookup filename = (slotCluster (s.disk s.rootSector).buf i,
          slotSize (s.disk s.rootSector).buf i) := by
        rw [FatState.lookup, readTarget, hr]
      by_cases hc : slotCluster (s.disk s.rootSector).buf i = 0
      · rw [read_of_not_found h0 (by rw [hl]; exact hc), readEntry, hr, Option.filter_some, if_neg]
        · rfl
        · exact fun h => of_decide_eq_true h hc
      · rw [readEntry_of_cluster hr hc, FatState.readOf]
        split_ifs with h1
        · rw [read_of_found h0 (by rw [hl]; exact hc) h1, hl]
        · exact read_of_data_fail h0 (by rw [hl]; exact hc) (Bool.not_eq_true _ ▸ h1)

end

/-! ### Agreement -/

/-- The three operations see the same file of this name in the directory, or all none: a read
resolves the name to the entry that an append does, and answers for it on every volume with this
directory, and a listing shows it. -/
structure LookupsAgree (sec : Sector) (filename : List UInt8) : Prop where
  same : appendSlot sec.buf (formatFatName filename) = readEntry sec.buf (formatFatName filename)
  answered : ∀ (s : FatState) (buffer : Buf) (maxLen : ℕ), s.disk s.rootSector = sec →
    s.io 0 = true → (fsReadFileContent filename buffer maxLen s).1 =
      s.readOf buffer maxLen (appendSlot sec.buf (formatFatName filename))
  listed : ∀ i ∈ appendSlot sec.buf (formatFatName filename), i ∈ listedSlots sec.buf

/-- **When the operations agree on a name.**  They see the same file or none if and only if the
first slot with the name, where there is one, is before the end mark, not deleted, no part of a
long name, and its first cluster is not 0. -/
theorem lookups_agree_iff (sec : Sector) (filename : List UInt8) :
    LookupsAgree sec filename ↔ ∀ i ∈ appendSlot sec.buf (formatFatName filename),
      (∀ j ≤ i, sec.buf (32 * j) ≠ 0) ∧ sec.buf (32 * i) ≠ 0xE5 ∧
        sec.buf (32 * i + 11) ≠ 0x0F ∧ slotCluster sec.buf i ≠ 0 := by
  constructor
  · rintro ⟨hsame, -, hlisted⟩ i hi
    obtain ⟨-, hused, hkept, hshort⟩ := mem_listedSlots_iff.1 (hlisted i hi)
    rw [hsame] at hi
    exact ⟨hused, hkept, hshort, slotCluster_of_readEntry hi⟩
  · intro h
    have hsame : appendSlot sec.buf (formatFatName filename) =
        readEntry sec.buf (formatFatName filename) := by
      have hread := readSlot_eq_filter sec.buf (formatFatName filename)
      cases ha : appendSlot sec.buf (formatFatName filename) with
      | none =>
          rw [ha, Option.filter_none] at hread
          rw [readEntry, hread, Option.filter_none]
      | some i =>
          obtain ⟨hused, -, -, hcluster⟩ := h i ha
          rw [ha, Option.filter_some,
            if_pos (decide_eq_true fun j hj => hused j (Nat.le_of_lt_succ hj))] at hread
          exact (readEntry_of_cluster hread hcluster).symm
    refine ⟨hsame, fun s buffer maxLen hroot h0 => ?_, fun i hi => ?_⟩
    · rw [fsReadFileContent_readEntry buffer maxLen h0, hroot, ← hsame]
    · obtain ⟨hused, hkept, hshort, -⟩ := h i hi
      exact mem_listedSlots_iff.2 ⟨(appendSlot_eq_some_iff.1 hi).1, hused, hkept, hshort⟩

/-- An entry behind the end mark is found by an append alone. -/
theorem entry_behind_end : ¬ ∀ (sec : Sector) (filename : List UInt8),
    LookupsAgree sec filename := by
  intro h
  have hsame := (h (toSector (withEntry (fun _ => 0) 1 (formatFatName (ascii "A")) 3 1))
    (ascii "A")).same
  exact absurd hsame (by decide +kernel)

end Fat32
end AiOsExchange
