/-
# Bundles of cartridges

`tools/mkbundle.py` writes the cartridges it accepts behind an index.  The kernel reads the file as a
`bundle_header_t` (`include/os_loader.h`), whose index has eight entries.

| bytes | `bundle_header_t` | `mkbundle.py` |
| --- | --- | --- |
| 0 to 3 | `magic` | `MAGIC_ATKB` |
| 4 to 7 | `cartridge_count` | `len(valid_cartridges)` |
| from 8 | `index[8]`, 12 bytes each | one entry a cartridge, and zeros up to eight |
| from 104 | | the cartridges |

The offsets in the index start at 104 whatever the number of cartridges.  For up to eight they are
right; nine entries reach beyond the table, and the cartridges begin behind them (`bundles_right_iff`).
-/

import AiOsExchange.Lib.Buffer

namespace AiOsExchange
namespace Tools

open CMemory

/-! ### The tool -/

/-- `MAGIC_ATKB`. -/
def magicAtkb : ℕ := 0x424B5441

/-- `MAGIC_ATKM`. -/
def magicAtkm : ℕ := 0x4D4B5441

/-- `CARTRIDGE_HEADER_SIZE`: six words and a signature of 64 bytes. -/
def cartridgeHeaderSize : ℕ := 6 * 4 + 64

/-- `INDEX_ENTRY_SIZE`. -/
def indexEntrySize : ℕ := 3 * 4

/-- `BUNDLE_HEADER_SIZE`. -/
def bundleHeaderSize : ℕ := 8 + indexEntrySize * 8

/-- `struct.unpack_from('<I', data, o)`. -/
def unpackU32 (data : List UInt8) (o : ℕ) : ℕ := ofLE ((data.drop o).take 4)

/-- The file is taken as a cartridge. -/
def Accepted (data : List UInt8) : Prop :=
  cartridgeHeaderSize ≤ data.length ∧ unpackU32 data 0 = magicAtkm

instance (data : List UInt8) : Decidable (Accepted data) :=
  inferInstanceAs (Decidable (_ ∧ _))

/-- `module_id` of a cartridge. -/
def moduleId (data : List UInt8) : ℕ := unpackU32 data 4

/-- `bundle_index_t`. -/
structure IndexEntry where
  moduleId : ℕ
  offset : ℕ
  size : ℕ
  deriving DecidableEq

/-- The loop that calculates the offsets, from `current_offset` on. -/
def indexEntries : ℕ → List (List UInt8) → List IndexEntry
  | _, [] => []
  | offset, data :: cartridges =>
      ⟨moduleId data, offset, data.length⟩ :: indexEntries (offset + data.length) cartridges

/-- Why the tool writes no bundle. -/
inductive Refusal
  /-- The usage is printed. -/
  | usage
  /-- A number does not fit `'<I'`. -/
  | structError
  deriving DecidableEq

/-- `struct.pack('<I', n)`. -/
def packU32 (n : ℕ) : Except Refusal (List UInt8) :=
  if n < 2 ^ 32 then .ok (toLE 4 n) else .error .structError

/-- `struct.pack(INDEX_ENTRY_FORMAT, module_id, offset, size)`. -/
def packEntry (e : IndexEntry) : Except Refusal (List UInt8) := do
  let id ← packU32 e.moduleId
  let offset ← packU32 e.offset
  let size ← packU32 e.size
  return id ++ offset ++ size

/-- The loop that writes the index. -/
def packIndex : List IndexEntry → Except Refusal (List UInt8)
  | [] => .ok []
  | e :: entries => do
      let entry ← packEntry e
      let index ← packIndex entries
      return entry ++ index

/-- `valid_cartridges`. -/
def acceptedFiles (files : List (List UInt8)) : List (List UInt8) :=
  files.filter fun data => decide (Accepted data)

/-- `index_entries`, with zeros up to eight. -/
def paddedEntries (cartridges : List (List UInt8)) : List IndexEntry :=
  (indexEntries bundleHeaderSize cartridges).rightpad 8 ⟨0, 0, 0⟩

/-- The end of the tool, which writes the bundle. -/
def writeBundle (cartridges : List (List UInt8)) : Except Refusal (List UInt8) := do
  let magic ← packU32 magicAtkb
  let count ← packU32 cartridges.length
  let index ← packIndex (paddedEntries cartridges)
  return magic ++ count ++ index ++ cartridges.flatten

/-- The tool on the contents of the files that are named. -/
def mkbundle (files : List (List UInt8)) : Except Refusal (List UInt8) :=
  if files = [] then .error .usage else writeBundle (acceptedFiles files)

/-! ### The reader -/

/-- `cartridge_count`. -/
def cartridgeCount (file : List UInt8) : ℕ := unpackU32 file 4

/-- `index[i]`. -/
def indexOf (file : List UInt8) (i : ℕ) : IndexEntry :=
  ⟨unpackU32 file (8 + 12 * i), unpackU32 file (12 + 12 * i), unpackU32 file (16 + 12 * i)⟩

/-- The bytes of an entry. -/
def cartridgeAt (file : List UInt8) (e : IndexEntry) : List UInt8 := (file.drop e.offset).take e.size

/-- A bundle that is right for these cartridges. -/
structure BundleRight (file : List UInt8) (cartridges : List (List UInt8)) : Prop where
  count : cartridgeCount file = cartridges.length
  fits : cartridgeCount file ≤ 8
  entries : ∀ i data, cartridges[i]? = some data →
    (indexOf file i).moduleId = moduleId data ∧ (indexOf file i).size = data.length ∧
      cartridgeAt file (indexOf file i) = data

/-- An offset or a size that is not below 2^32. -/
def TooLarge (cartridges : List (List UInt8)) : Prop :=
  ∃ i data, cartridges[i]? = some data ∧
    (2 ^ 32 ≤ bundleHeaderSize + (cartridges.take i).flatten.length ∨ 2 ^ 32 ≤ data.length)

/-! ### What is written -/

/-- The bytes of an entry in the index. -/
def IndexEntry.bytes (e : IndexEntry) : List UInt8 :=
  toLE 4 e.moduleId ++ toLE 4 e.offset ++ toLE 4 e.size

/-- The numbers of an entry fit its words. -/
def IndexEntry.Fits (e : IndexEntry) : Prop :=
  e.moduleId < 2 ^ 32 ∧ e.offset < 2 ^ 32 ∧ e.size < 2 ^ 32

instance (e : IndexEntry) : Decidable e.Fits := inferInstanceAs (Decidable (_ ∧ _ ∧ _))

@[simp] theorem IndexEntry.bytes_length (e : IndexEntry) : e.bytes.length = 12 := by
  simp [IndexEntry.bytes]

section
variable {file pre rest data : List UInt8} {cartridges : List (List UInt8)} {entries : List IndexEntry}
  {i n o : ℕ}

theorem packU32_of_lt (h : n < 2 ^ 32) : packU32 n = .ok (toLE 4 n) := if_pos h

theorem packU32_of_not_lt (h : ¬ n < 2 ^ 32) : packU32 n = .error .structError := if_neg h

theorem packEntry_of_fits {e : IndexEntry} (h : e.Fits) : packEntry e = .ok e.bytes := by
  obtain ⟨hid, hoffset, hsize⟩ := h
  rw [packEntry, packU32_of_lt hid, packU32_of_lt hoffset, packU32_of_lt hsize]
  rfl

theorem packEntry_of_not_fits {e : IndexEntry} (h : ¬ e.Fits) :
    packEntry e = .error .structError := by
  rw [packEntry]
  by_cases hid : e.moduleId < 2 ^ 32
  · rw [packU32_of_lt hid]
    by_cases hoffset : e.offset < 2 ^ 32
    · rw [packU32_of_lt hoffset, packU32_of_not_lt fun hsize => h ⟨hid, hoffset, hsize⟩]
      rfl
    · rw [packU32_of_not_lt hoffset]
      rfl
  · rw [packU32_of_not_lt hid]
    rfl

/-- An index is written if all its entries fit. -/
theorem packIndex_of_fits (h : ∀ e ∈ entries, e.Fits) :
    packIndex entries = .ok (entries.flatMap IndexEntry.bytes) := by
  induction entries with
  | nil => rfl
  | cons e entries ih =>
      rw [packIndex, packEntry_of_fits (h e List.mem_cons_self),
        ih fun e' he' => h e' (List.mem_cons_of_mem e he')]
      rfl

theorem packIndex_of_not_fits {e : IndexEntry} (he : e ∈ entries) (h : ¬ e.Fits) :
    packIndex entries = .error .structError := by
  induction entries with
  | nil => exact absurd he List.not_mem_nil
  | cons first entries ih =>
      rw [packIndex]
      by_cases hfirst : first.Fits
      · rw [packEntry_of_fits hfirst]
        rcases List.mem_cons.1 he with rfl | he
        · exact absurd hfirst h
        · rw [ih he]
          rfl
      · rw [packEntry_of_not_fits hfirst]
        rfl

theorem indexEntries_length (o : ℕ) (cartridges : List (List UInt8)) :
    (indexEntries o cartridges).length = cartridges.length := by
  induction cartridges generalizing o with
  | nil => rfl
  | cons data cartridges ih => rw [indexEntries, List.length_cons, List.length_cons, ih]

/-- The offset of a cartridge is that of the first and the sizes of those before it. -/
theorem indexEntries_getElem? (o : ℕ) (cartridges : List (List UInt8)) (i : ℕ) :
    (indexEntries o cartridges)[i]? = (cartridges[i]?).map fun data =>
      ⟨moduleId data, o + (cartridges.take i).flatten.length, data.length⟩ := by
  induction cartridges generalizing o i with
  | nil => rfl
  | cons data cartridges ih =>
      cases i with
      | zero => rfl
      | succ i =>
          rw [indexEntries, List.getElem?_cons_succ, List.getElem?_cons_succ, ih, List.take_succ_cons,
            List.flatten_cons, List.length_append]
          simp only [Nat.add_assoc]

theorem moduleId_lt (data : List UInt8) : moduleId data < 2 ^ 32 := by
  have hlt := ofLE_lt ((data.drop 4).take 4)
  have hlen : ((data.drop 4).take 4).length ≤ 4 := List.length_take_le _ _
  have hpow := Nat.pow_le_pow_right (show 0 < 256 by decide) hlen
  rw [moduleId, unpackU32]
  omega

/-- A word is read where it was written. -/
theorem unpackU32_append (hpre : pre.length = o) (hn : n < 2 ^ 32) :
    unpackU32 (pre ++ (toLE 4 n ++ rest)) o = n := by
  rw [unpackU32, List.drop_left' hpre, List.take_left' (toLE_length 4 n), ofLE_toLE (by simpa using hn)]

theorem mem_indexEntries {e : IndexEntry} :
    e ∈ indexEntries o cartridges ↔ ∃ i data, cartridges[i]? = some data ∧
      e = ⟨moduleId data, o + (cartridges.take i).flatten.length, data.length⟩ := by
  rw [List.mem_iff_getElem?]
  simp only [indexEntries_getElem?, Option.map_eq_some_iff, eq_comm (a := e)]

theorem paddedEntries_fit (h : ¬ TooLarge cartridges) : ∀ e ∈ paddedEntries cartridges, e.Fits := by
  intro e he
  rcases List.mem_append.1 he with he | he
  · obtain ⟨i, data, hdata, rfl⟩ := mem_indexEntries.1 he
    refine ⟨moduleId_lt data, Nat.lt_of_not_le fun hle => ?_, Nat.lt_of_not_le fun hle => ?_⟩
    · exact h ⟨i, data, hdata, .inl hle⟩
    · exact h ⟨i, data, hdata, .inr hle⟩
  · rw [List.eq_of_mem_replicate he]
    decide

theorem exists_not_fits (h : TooLarge cartridges) : ∃ e ∈ paddedEntries cartridges, ¬ e.Fits := by
  obtain ⟨i, data, hdata, hlarge⟩ := h
  refine ⟨_, List.mem_append_left _ (mem_indexEntries.2 ⟨i, data, hdata, rfl⟩), fun hfits => ?_⟩
  obtain ⟨-, hoffset, hsize⟩ := hfits
  exact hlarge.elim (Nat.not_le_of_lt hoffset) (Nat.not_le_of_lt hsize)

theorem length_le_flatten (h : ∀ data ∈ cartridges, 0 < data.length) :
    cartridges.length ≤ cartridges.flatten.length := by
  induction cartridges with
  | nil => exact Nat.le_refl 0
  | cons data cartridges ih =>
      have hdata := h data List.mem_cons_self
      have hrest := ih fun d hd => h d (List.mem_cons_of_mem data hd)
      rw [List.length_cons, List.flatten_cons, List.length_append]
      omega

/-- Of more cartridges than a word counts one has an offset that is too large. -/
theorem count_lt (h : ¬ TooLarge cartridges) (hlong : ∀ data ∈ cartridges, 0 < data.length) :
    cartridges.length < 2 ^ 32 := by
  by_contra hge
  have hi : 2 ^ 32 - 1 < cartridges.length := by omega
  have hbefore := length_le_flatten fun data hdata =>
    hlong data ((List.take_sublist (2 ^ 32 - 1) cartridges).mem hdata)
  rw [List.length_take, Nat.min_eq_left (by omega)] at hbefore
  exact h ⟨_, _, List.getElem?_eq_getElem hi, .inl (by rw [bundleHeaderSize]; omega)⟩

/-- The file that is written for these cartridges. -/
def bundleBytes (cartridges : List (List UInt8)) : List UInt8 :=
  toLE 4 magicAtkb ++ toLE 4 cartridges.length ++
    (paddedEntries cartridges).flatMap IndexEntry.bytes ++ cartridges.flatten

theorem writeBundle_of_not_tooLarge (h : ¬ TooLarge cartridges)
    (hlong : ∀ data ∈ cartridges, 0 < data.length) :
    writeBundle cartridges = .ok (bundleBytes cartridges) := by
  rw [writeBundle, packU32_of_lt (show magicAtkb < 2 ^ 32 by decide),
    packU32_of_lt (count_lt h hlong), packIndex_of_fits (paddedEntries_fit h)]
  rfl

theorem writeBundle_of_tooLarge (h : TooLarge cartridges) :
    writeBundle cartridges = .error .structError := by
  obtain ⟨e, he, hnot⟩ := exists_not_fits h
  rw [writeBundle, packU32_of_lt (show magicAtkb < 2 ^ 32 by decide), packIndex_of_not_fits he hnot]
  by_cases hcount : cartridges.length < 2 ^ 32
  · rw [packU32_of_lt hcount]
    rfl
  · rw [packU32_of_not_lt hcount]
    rfl

theorem pos_of_mem_acceptedFiles {files : List (List UInt8)} (h : data ∈ acceptedFiles files) :
    0 < data.length := by
  have haccepted : Accepted data := of_decide_eq_true (List.mem_filter.1 h).2
  exact Nat.lt_of_lt_of_le (by decide) haccepted.1

/-! ### What is read -/

theorem cartridgeCount_bundleBytes (h : cartridges.length < 2 ^ 32) :
    cartridgeCount (bundleBytes cartridges) = cartridges.length := by
  rw [cartridgeCount, bundleBytes, List.append_assoc, List.append_assoc]
  exact unpackU32_append (toLE_length 4 magicAtkb) h

@[simp] theorem flatMap_bytes_length (entries : List IndexEntry) :
    (entries.flatMap IndexEntry.bytes).length = 12 * entries.length := by
  induction entries with
  | nil => rfl
  | cons e entries ih =>
      rw [List.flatMap_cons, List.length_append, ih, e.bytes_length, List.length_cons]
      omega

/-- An entry is read at its place in the index. -/
theorem indexOf_append {e : IndexEntry} (he : e.Fits) (hpre : pre.length = 8 + 12 * i) :
    indexOf (pre ++ (e.bytes ++ rest)) i = e := by
  obtain ⟨hid, hoffset, hsize⟩ := he
  have h1 : unpackU32 (pre ++ (e.bytes ++ rest)) (8 + 12 * i) = e.moduleId := by
    rw [IndexEntry.bytes, List.append_assoc, List.append_assoc]
    exact unpackU32_append hpre hid
  have h2 : unpackU32 (pre ++ (e.bytes ++ rest)) (12 + 12 * i) = e.offset := by
    rw [IndexEntry.bytes, List.append_assoc, List.append_assoc, ← List.append_assoc]
    exact unpackU32_append (by rw [List.length_append, hpre, toLE_length]; omega) hoffset
  have h3 : unpackU32 (pre ++ (e.bytes ++ rest)) (16 + 12 * i) = e.size := by
    rw [IndexEntry.bytes, List.append_assoc, ← List.append_assoc]
    exact unpackU32_append
      (by rw [List.length_append, List.length_append, hpre, toLE_length, toLE_length]; omega) hsize
  rw [indexOf, h1, h2, h3]

theorem indexOf_bundleBytes {e : IndexEntry} (hi : (paddedEntries cartridges)[i]? = some e)
    (he : e.Fits) : indexOf (bundleBytes cartridges) i = e := by
  obtain ⟨hlt, hget⟩ := List.getElem?_eq_some_iff.1 hi
  have hsplit : (paddedEntries cartridges).flatMap IndexEntry.bytes =
      ((paddedEntries cartridges).take i).flatMap IndexEntry.bytes ++
        (e.bytes ++ ((paddedEntries cartridges).drop (i + 1)).flatMap IndexEntry.bytes) := by
    rw [← hget, ← List.flatMap_cons, ← List.drop_eq_getElem_cons hlt, ← List.flatMap_append,
      List.take_append_drop]
  rw [bundleBytes, hsplit, ← List.append_assoc, List.append_assoc _ _ cartridges.flatten,
    List.append_assoc e.bytes]
  refine indexOf_append he ?_
  simp only [List.length_append, toLE_length, flatMap_bytes_length, List.length_take]
  omega

/-- **Up to eight cartridges are found where the index says.** -/
theorem bundleRight_bundleBytes (h8 : cartridges.length ≤ 8) (h : ¬ TooLarge cartridges) :
    BundleRight (bundleBytes cartridges) cartridges := by
  have hcount : cartridgeCount (bundleBytes cartridges) = cartridges.length :=
    cartridgeCount_bundleBytes (by omega)
  have hpadded : (paddedEntries cartridges).length = 8 := by
    rw [paddedEntries, List.length_rightpad, indexEntries_length, Nat.max_eq_left h8]
  refine ⟨hcount, by omega, fun i data hdata => ?_⟩
  have hentry : (paddedEntries cartridges)[i]? = some
      ⟨moduleId data, bundleHeaderSize + (cartridges.take i).flatten.length, data.length⟩ := by
    obtain ⟨hlt, -⟩ := List.getElem?_eq_some_iff.1 hdata
    rw [paddedEntries, List.rightpad, List.getElem?_append_left (by rw [indexEntries_length]; exact hlt),
      indexEntries_getElem?, hdata, Option.map_some]
  rw [indexOf_bundleBytes hentry (paddedEntries_fit h _ (List.mem_of_getElem? hentry))]
  refine ⟨rfl, rfl, ?_⟩
  obtain ⟨hlt, hget⟩ := List.getElem?_eq_some_iff.1 hdata
  have hsplit : cartridges.flatten =
      (cartridges.take i).flatten ++ (data ++ (cartridges.drop (i + 1)).flatten) := by
    rw [← hget, ← List.flatten_cons, ← List.drop_eq_getElem_cons hlt, ← List.flatten_append,
      List.take_append_drop]
  rw [cartridgeAt, bundleBytes, hsplit, ← List.append_assoc, List.drop_left' ?_, List.take_left' rfl]
  simp only [List.length_append, toLE_length, flatMap_bytes_length, hpadded]
  rfl

end

/-- **Bundle offsets are right**, or the tool refuses the list, if and only if at most eight files are
accepted, or an offset or a size is not below 2^32. -/
theorem bundles_right_iff (files : List (List UInt8)) :
    (∀ file, mkbundle files = .ok file → BundleRight file (acceptedFiles files)) ↔
      (acceptedFiles files).length ≤ 8 ∨ TooLarge (acceptedFiles files) := by
  by_cases hnil : files = []
  · subst hnil
    exact iff_of_true (fun file h => by simp [mkbundle] at h) (.inl (Nat.zero_le 8))
  rw [mkbundle, if_neg hnil]
  by_cases hlarge : TooLarge (acceptedFiles files)
  · rw [writeBundle_of_tooLarge hlarge]
    exact iff_of_true (fun file h => by simp at h) (.inr hlarge)
  · have hlong := fun data (hdata : data ∈ acceptedFiles files) => pos_of_mem_acceptedFiles hdata
    rw [writeBundle_of_not_tooLarge hlarge hlong, or_iff_left hlarge]
    refine ⟨fun h => ?_, fun h8 file hfile => ?_⟩
    · have hright := h _ rfl
      rw [← hright.count]
      exact hright.fits
    · rw [← Except.ok.inj hfile]
      exact bundleRight_bundleBytes h8 hlarge

/-- A cartridge without code: the magic number, the module id and zeros. -/
def emptyCartridge (id : UInt8) : List UInt8 :=
  toLE 4 magicAtkm ++ [id, 0, 0, 0] ++ List.replicate 80 0

/-- With nine cartridges the index is longer than the table, and at the offset of the first is the end
of the index. -/
theorem nine_cartridges : ¬ ∀ (files : List (List UInt8)), (∀ data ∈ files, Accepted data) →
    ∀ file, mkbundle files = .ok file → BundleRight file files := by
  intro h
  have haccepted : ∀ data ∈ List.replicate 9 (emptyCartridge 1), Accepted data := by
    intro data hdata
    rw [List.eq_of_mem_replicate hdata]
    decide +kernel
  have hwrong : ∀ file ∈ (mkbundle (List.replicate 9 (emptyCartridge 1))).toOption,
      cartridgeAt file (indexOf file 0) ≠ emptyCartridge 1 := by decide +kernel
  have hwritten : (mkbundle (List.replicate 9 (emptyCartridge 1))).toOption.isSome := by
    decide +kernel
  cases hfile : mkbundle (List.replicate 9 (emptyCartridge 1)) with
  | error e =>
      rw [hfile] at hwritten
      exact absurd hwritten (by simp [Except.toOption])
  | ok file =>
      have hright := h _ haccepted file hfile
      rw [hfile] at hwrong
      exact hwrong file rfl (hright.entries 0 (emptyCartridge 1) rfl).2.2

end Tools
end AiOsExchange
