/-
# Directory sectors and FAT sectors

`struct fat32_dir_entry` of `include/os_fat32.h` and the loops of `modules/fs/fat32.c` over a
directory or FAT sector in a buffer.  A sector holds 16 entries of 32 bytes:

| bytes | field |
| --- | --- |
| 0 … 10 | `name` |
| 11 | `attr` |
| 12 … 19 | `nt_res`, `crt_time_tenth`, `crt_time`, `crt_date`, `lst_acc_date` |
| 20, 21 | `fst_clus_hi` |
| 22 … 25 | `wrt_time`, `wrt_date` |
| 26, 27 | `fst_clus_lo` |
| 28 … 31 | `file_size` |

The three searches differ.  A read stops at the end mark, an append does not, and a write looks
for a slot that is free.
-/

import AiOsExchange.Fat32.Device

namespace AiOsExchange
namespace Fat32

open CMemory

/-! ### Names -/

/-- `if (c >= 'a' && c <= 'z') c -= 32;` -/
def upper (c : UInt8) : UInt8 := if 97 ≤ c ∧ c ≤ 122 then c - 32 else c

/-- `format_fat_name` on the bytes of a string: what precedes the first dot, at most 8, and
what follows it, at most 3, each padded with blanks. -/
def formatFatName (input : List UInt8) : List UInt8 :=
  let base := (input.takeWhile (· ≠ 46)).take 8
  let ext := ((input.dropWhile (· ≠ 46)).drop 1).take 3
  (base.map upper).rightpad 8 32 ++ (ext.map upper).rightpad 3 32

/-- A FAT name has 11 bytes. -/
@[simp] theorem formatFatName_length (input : List UInt8) : (formatFatName input).length = 11 := by
  simp [formatFatName, List.rightpad]
  omega

theorem upper_toNat (c : UInt8) :
    (upper c).toNat = if 97 ≤ c.toNat ∧ c.toNat ≤ 122 then c.toNat - 32 else c.toNat := by
  have h1 : 97 ≤ c ↔ 97 ≤ c.toNat := UInt8.le_iff_toNat_le
  have h2 : c ≤ 122 ↔ c.toNat ≤ 122 := UInt8.le_iff_toNat_le
  simp only [upper, apply_ite UInt8.toNat, h1, h2]
  split_ifs with h
  · exact UInt8.toNat_sub_of_le _ _ (UInt8.le_iff_toNat_le.2 (show 32 ≤ c.toNat by omega))
  · rfl

theorem upper_upper (c : UInt8) : upper (upper c) = upper c := by
  rw [← UInt8.toNat_inj, upper_toNat, upper_toNat]
  split_ifs <;> omega

theorem upper_eq_dot_iff {c : UInt8} : upper c = 46 ↔ c = 46 := by
  rw [← UInt8.toNat_inj, ← UInt8.toNat_inj, upper_toNat]
  change _ = 46 ↔ c.toNat = 46
  split_ifs <;> omega

/-- **The case of what is typed does not matter.** -/
theorem formatFatName_map_upper (typed : List UInt8) :
    formatFatName (typed.map upper) = formatFatName typed := by
  have hdot : (fun c : UInt8 => decide (c ≠ 46)) ∘ upper = fun c => decide (c ≠ 46) := by
    funext c
    simp only [Function.comp_apply, ne_eq, upper_eq_dot_iff]
  have hup : upper ∘ upper = upper := funext upper_upper
  rw [formatFatName, formatFatName, List.takeWhile_map, List.dropWhile_map, hdot]
  simp only [← List.map_take, ← List.map_drop, List.map_map, hup]

example : formatFatName (ascii "Readme.txt") = ascii "README  TXT" := by decide

/-- **Names that differ in letter case alone are one name on the volume.** -/
theorem formatFatName_congr {input input' : List UInt8} (h : input.map upper = input'.map upper) :
    formatFatName input = formatFatName input' := by
  rw [← formatFatName_map_upper input, h, formatFatName_map_upper]

theorem upper_ne_zero {c : UInt8} (h : c ≠ 0) : upper c ≠ 0 := by
  rw [ne_eq, ← UInt8.toNat_inj, UInt8.toNat_zero] at h ⊢
  rw [upper_toNat]
  split_ifs <;> omega

/-- The name of a string has no NUL, like the string. -/
theorem nul_not_mem_formatFatName {input : List UInt8} (h : (0 : UInt8) ∉ input) :
    (0 : UInt8) ∉ formatFatName input := by
  have hpad {l : List UInt8} (n : ℕ) (hl : ∀ c ∈ l, c ∈ input) :
      (0 : UInt8) ∉ (l.map upper).rightpad n 32 := by
    simp only [List.rightpad, List.mem_append, List.mem_map, List.mem_replicate, not_or, not_exists,
      not_and]
    refine ⟨fun c hc h0 => ?_, fun _ h0 => by cases h0⟩
    exact upper_ne_zero (fun hc0 => h (hc0 ▸ hl c hc)) h0
  rw [formatFatName, List.mem_append, not_or]
  exact ⟨hpad 8 fun c hc => (List.takeWhile_sublist _).mem (List.mem_of_mem_take hc),
    hpad 3 fun c hc => (List.dropWhile_sublist _).mem (List.mem_of_mem_drop (List.mem_of_mem_take hc))⟩

/-! ### Directory slots -/

/-- `dir[i].name`. -/
def slotName (dir : Buf) (i : ℕ) : List UInt8 := bytesAt dir (32 * i) 11

/-- `((uint32_t)dir[i].fst_clus_hi << 16) | dir[i].fst_clus_lo`. -/
def slotCluster (dir : Buf) (i : ℕ) : ℕ := u16 dir (32 * i + 20) * 2 ^ 16 + u16 dir (32 * i + 26)

/-- `dir[i].file_size`. -/
def slotSize (dir : Buf) (i : ℕ) : ℕ := u32 dir (32 * i + 28)

/-- The slot `fs_read_file_content` finds: the first with the name, before the end mark. -/
def readSlot (dir : Buf) (target : List UInt8) : Option ℕ :=
  ((List.range 16).find? fun i => dir (32 * i) = 0 ∨ slotName dir i = target).filter fun i =>
    dir (32 * i) ≠ 0

/-- The slot `fs_append_file_content` finds: the first with the name. -/
def appendSlot (dir : Buf) (target : List UInt8) : Option ℕ :=
  (List.range 16).find? fun i => slotName dir i = target

/-- The slot `fs_write_file_content` fills: the first that is unused or deleted. -/
def freeSlot (dir : Buf) : Option ℕ :=
  (List.range 16).find? fun i => dir (32 * i) = 0 ∨ dir (32 * i) = 0xE5

/-- The entry `fs_write_file_content` writes. -/
def dirEntry (target : List UInt8) (cluster length : ℕ) : List UInt8 :=
  target ++ [0x20, 0, 0] ++ List.replicate 6 0 ++ toLE 2 (cluster / 2 ^ 16) ++ List.replicate 4 0
    ++ toLE 2 cluster ++ toLE 4 length

/-! ### FAT entries -/

/-- `fat_table[c] & 0x0FFFFFFF`. -/
def fatEntry (fat : Buf) (c : ℕ) : ℕ := u32 fat (4 * c) % 2 ^ 28

/-- The entry `fs_write_file_content` takes: the first free one of 2 … 127. -/
def freeCluster (fat : Buf) : Option ℕ := (List.range' 2 126).find? fun c => fatEntry fat c = 0

/-- `0x0FFFFFFF`, the mark of a chain's last cluster. -/
def endOfChain : List UInt8 := toLE 4 0x0FFFFFFF

/-! ### Searches see a sector -/

section
variable {b b' : Buf}

theorem slotName_congr (h : ∀ k < 512, b k = b' k) {i : ℕ} (hi : i < 16) :
    slotName b i = slotName b' i :=
  bytesAt_congr fun k hk => h _ (by omega)

theorem slotCluster_congr (h : ∀ k < 512, b k = b' k) {i : ℕ} (hi : i < 16) :
    slotCluster b i = slotCluster b' i := by
  have h1 : bytesAt b (32 * i + 20) 2 = bytesAt b' (32 * i + 20) 2 :=
    bytesAt_congr fun k hk => h _ (by omega)
  have h2 : bytesAt b (32 * i + 26) 2 = bytesAt b' (32 * i + 26) 2 :=
    bytesAt_congr fun k hk => h _ (by omega)
  rw [slotCluster, slotCluster, u16, u16, u16, u16, h1, h2]

theorem slotSize_congr (h : ∀ k < 512, b k = b' k) {i : ℕ} (hi : i < 16) :
    slotSize b i = slotSize b' i := by
  have h1 : bytesAt b (32 * i + 28) 4 = bytesAt b' (32 * i + 28) 4 :=
    bytesAt_congr fun k hk => h _ (by omega)
  rw [slotSize, slotSize, u32, u32, h1]

theorem fatEntry_congr (h : ∀ k < 512, b k = b' k) {c : ℕ} (hc : c < 128) :
    fatEntry b c = fatEntry b' c := by
  have h1 : bytesAt b (4 * c) 4 = bytesAt b' (4 * c) 4 := bytesAt_congr fun k hk => h _ (by omega)
  rw [fatEntry, fatEntry, u32, u32, h1]

theorem find?_congr {l : List ℕ} {p q : ℕ → Bool} (h : ∀ i ∈ l, p i = q i) :
    l.find? p = l.find? q := by
  induction l with
  | nil => rfl
  | cons a l ih =>
      rw [List.find?_cons, List.find?_cons, h a (by simp), ih fun i hi => h i (by simp [hi])]

theorem freeSlot_congr (h : ∀ k < 512, b k = b' k) : freeSlot b = freeSlot b' :=
  find?_congr fun i hi => by rw [h _ (by have := List.mem_range.1 hi; omega)]

theorem appendSlot_congr (h : ∀ k < 512, b k = b' k) (target : List UInt8) :
    appendSlot b target = appendSlot b' target :=
  find?_congr fun _ hi => by rw [slotName_congr h (List.mem_range.1 hi)]

theorem readSlot_congr (h : ∀ k < 512, b k = b' k) (target : List UInt8) :
    readSlot b target = readSlot b' target := by
  have hf : (List.range 16).find? (fun i => b (32 * i) = 0 ∨ slotName b i = target) =
      (List.range 16).find? fun i => b' (32 * i) = 0 ∨ slotName b' i = target :=
    find?_congr fun i hi => by
      have := List.mem_range.1 hi
      rw [slotName_congr h this, h _ (by omega)]
  rw [readSlot, readSlot, hf]
  cases hi : (List.range 16).find? fun i => b' (32 * i) = 0 ∨ slotName b' i = target with
  | none => rfl
  | some i =>
      have := List.mem_range.1 (List.mem_of_find?_eq_some hi)
      simp only [Option.filter_some, h (32 * i) (by omega)]

theorem freeCluster_congr (h : ∀ k < 512, b k = b' k) : freeCluster b = freeCluster b' :=
  find?_congr fun c hc => by
    have := List.mem_range'.1 hc
    rw [fatEntry_congr h (by omega)]

end

end Fat32
end AiOsExchange
