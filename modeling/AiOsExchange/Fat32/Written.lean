/-
# What is read of what was written

`modules/fs/fat32.c`.  A write that finds a free FAT entry `c` leaves three sectors to be read:
the FAT, the data sector of `c` and the root sector; a read goes from the root sector to one
data sector.  So the text is read back in two ways.

* `Enters`: the entry gets a slot of the directory, and no earlier one has the name.
* `CrossLinked`: a slot that was there has the name, is found first, and leads to the sector of
  `c`, although `c` is free in the FAT; the text must fit its size.

`writtenIs_iff` says that there is no third way that would do for every text.
-/

import AiOsExchange.Fat32.Outcomes
import Mathlib.Data.Nat.Find

namespace AiOsExchange
namespace Fat32

open CMemory

namespace FatState

/-- What a read shows of a name that is already formatted. -/
def shownAs (g : Geometry) (disk : ℕ → Sector) (target : List UInt8) (m : ℕ) : List UInt8 :=
  let (cluster, size) := readTarget (disk g.rootSector).buf target
  if cluster = 0 then fileNotFound.take m
  else (bytesAt (disk (g.clusterToSector cluster)).buf 0 (min size m)).takeWhile (· ≠ 0)

theorem shown_eq_shownAs (s : FatState) (filename : List UInt8) (m : ℕ) :
    s.shown filename m = shownAs s.toGeometry s.disk (formatFatName filename) m := rfl

/-- The disk after the text `l` was written. -/
def written (s : FatState) (filename l : List UInt8) : ℕ → Sector :=
  (fsWriteFileContent filename (cString l) l.length s).disk

/-- The directory that a write to cluster `c` finds, if the data sector is not the root sector. -/
def dirBefore (s : FatState) (c : ℕ) : Buf := (s.afterFat c s.rootSector).buf

/-- The slot it fills there. -/
def slotFor (s : FatState) (c : ℕ) : Option ℕ :=
  if s.io 3 && s.io 4 then freeSlot (s.dirBefore c) else none

/-- The entry gets a slot, and no earlier slot has the name. -/
def Enters (s : FatState) (target : List UInt8) (c : ℕ) : Prop :=
  ∃ i, s.slotFor c = some i ∧ ∀ j < i, slotName (s.dirBefore c) j ≠ target

/-- A slot that is found before the new entry leads to the sector of `c` and shows `n` bytes. -/
def CrossLinked (s : FatState) (target : List UInt8) (c n : ℕ) : Prop :=
  ∃ j, readSlot (s.dirBefore c) target = some j ∧ (∀ i, s.slotFor c = some i → j < i) ∧
    slotCluster (s.dirBefore c) j ≠ 0 ∧
    s.clusterToSector (slotCluster (s.dirBefore c) j) = s.clusterToSector c ∧
    n ≤ slotSize (s.dirBefore c) j

/-- A text of `n` bytes that is written under this name is read back: the FAT sector is read, has
a free entry, the data sector is written and is not the root sector, and the name leads to it. -/
def WritesThrough (s : FatState) (target : List UInt8) (n : ℕ) : Prop :=
  s.io 0 = true ∧ s.io 2 = true ∧ ∃ c, freeCluster (s.disk s.fatStartSector).buf = some c ∧
    s.clusterToSector c ≠ s.rootSector ∧ (s.Enters target c ∨ s.CrossLinked target c n)

end FatState

/-! ### The sectors of a write -/

theorem dataSector_eq (data : Buf) (length : ℕ) :
    dataSector data length = toSector (put (fun _ => 0) 0 (bytesAt data 0 (min length 512))) := by
  have hzero : put (fun _ => 0) 0 (List.replicate 512 0) = fun _ => (0 : UInt8) := by
    funext k
    rcases Nat.lt_or_ge k 512 with hk | hk
    · rw [put_apply_zero (by rwa [List.length_replicate]), List.getElem_replicate]
    · exact put_of_ge (by rwa [List.length_replicate, Nat.zero_add])
  rw [dataSector, dataBlock, hzero]

/-- **The text is in the data sector.** -/
theorem takeWhile_dataSector {l : List UInt8} (h0 : (0 : UInt8) ∉ l) (hl : l.length ≤ 512) {n : ℕ}
    (hn : n ≤ 512) :
    (bytesAt (dataSector (cString l) l.length).buf 0 n).takeWhile (· ≠ 0) = l.take n := by
  rw [dataSector_eq, Nat.min_eq_left hl, bytesAt_cString, bytesAt_toSector _ (by omega),
    ← text_eq_takeWhile, put_zeros, text_cString h0]

section
variable {s : FatState} {filename target l l' : List UInt8} {c : ℕ}

/-- A write takes the text from its bytes alone. -/
theorem disk_write_eq_written {data : Buf} (h : bytesAt data 0 l.length = l) :
    (fsWriteFileContent filename data l.length s).disk = s.written filename l := by
  have hsec : dataSector data l.length = dataSector (cString l) l.length := by
    have htake (b : Buf) (hb : bytesAt b 0 l.length = l) :
        bytesAt b 0 (min l.length 512) = l.take (min l.length 512) := by
      rw [← bytesAt_take _ _ (Nat.min_le_left _ _), hb]
    rw [dataSector_eq, dataSector_eq, htake _ h, htake _ (bytesAt_cString l)]
  by_cases hstuck : s.io 0 = false ∨ freeCluster (s.disk s.fatStartSector).buf = none
  · rw [FatState.written, disk_write_of_stuck hstuck, disk_write_of_stuck hstuck]
  · obtain ⟨h0, hc⟩ := not_or.1 hstuck
    obtain ⟨c, hc⟩ := Option.ne_none_iff_exists'.1 hc
    rw [FatState.written, disk_write (by simpa using h0) hc, disk_write (by simpa using h0) hc]
    simp only [FatState.enteredSlot, FatState.rootBefore, FatState.afterData, hsec]

/-- A write depends on the formatted name alone. -/
theorem written_congr {filename' : List UInt8} (h : formatFatName filename = formatFatName filename') :
    s.written filename l = s.written filename' l := by
  rw [FatState.written, FatState.written, fsWriteFileContent, fsWriteFileContent, h]

theorem written_of_stuck (h : s.io 0 = false ∨ freeCluster (s.disk s.fatStartSector).buf = none) :
    s.written filename l = s.disk := disk_write_of_stuck h

/-- A text that was not written leaves what another of its length does. -/
theorem written_of_data_fail (h0 : s.io 0 = true)
    (hc : freeCluster (s.disk s.fatStartSector).buf = some c) (h2 : s.io 2 = false)
    (hl : l.length = l'.length) : s.written filename l = s.written filename l' := by
  rw [FatState.written, FatState.written, disk_write h0 hc, disk_write h0 hc]
  simp [FatState.enteredSlot, FatState.rootBefore, FatState.afterData, h2, hl]

section
variable (h0 : s.io 0 = true) (hc : freeCluster (s.disk s.fatStartSector).buf = some c)
  (hne : s.clusterToSector c ≠ s.rootSector)

theorem afterData_of_ne {data : Buf} {length n : ℕ} (hn : n ≠ s.clusterToSector c) :
    s.afterData c data length n = s.afterFat c n := by
  rw [FatState.afterData]
  split_ifs
  · exact Function.update_of_ne hn _ _
  · rfl

include h0 hc hne

/-- The disk after a write outside the root sector. -/
theorem written_eq :
    s.written filename l =
      match s.slotFor c with
      | some i => Function.update (s.afterData c (cString l) l.length) s.rootSector
          (toSector (withEntry (s.dirBefore c) i (formatFatName filename) c l.length))
      | none => s.afterData c (cString l) l.length := by
  rw [FatState.written, disk_write h0 hc]
  simp only [FatState.enteredSlot, FatState.rootBefore, afterData_of_ne hne.symm]
  rfl

/-- **The root sector after a write.** -/
theorem readTarget_written :
    readTarget (s.written filename l s.rootSector).buf target =
      match s.slotFor c with
      | some i => readTarget (withEntry (s.dirBefore c) i (formatFatName filename) c l.length) target
      | none => readTarget (s.dirBefore c) target := by
  rw [written_eq h0 hc hne]
  cases s.slotFor c with
  | some i => simp only [Function.update_self, readTarget_toSector]
  | none => simp only [afterData_of_ne hne.symm, FatState.dirBefore]

/-- **The data sector after a write.** -/
theorem written_data (h2 : s.io 2 = true) :
    s.written filename l (s.clusterToSector c) = dataSector (cString l) l.length := by
  have hdata : s.afterData c (cString l) l.length (s.clusterToSector c) =
      dataSector (cString l) l.length := by
    simp [FatState.afterData, h2]
  rw [written_eq h0 hc hne]
  cases s.slotFor c with
  | some i => exact (Function.update_of_ne hne _ _).trans hdata
  | none => exact hdata

/-- All other sectors are left as they are, whatever the text. -/
theorem written_other {n : ℕ} (hn : n ≠ s.clusterToSector c) (hl : l.length = l'.length) :
    s.written filename l n = s.written filename l' n := by
  rw [written_eq h0 hc hne, written_eq h0 hc hne, hl]
  cases s.slotFor c with
  | some i =>
      simp only [Function.update_apply, afterData_of_ne hn]
  | none => simp only [afterData_of_ne hn]

end

/-! ### Reading it back -/

theorem readTarget_of_readSlot {dir : Buf} {j : ℕ} (h : readSlot dir target = some j) :
    readTarget dir target = (slotCluster dir j, slotSize dir j) := by
  rw [readTarget, h]

theorem freeSlot_of_slotFor {i : ℕ} (h : s.slotFor c = some i) :
    freeSlot (s.dirBefore c) = some i := by
  rw [FatState.slotFor] at h
  split_ifs at h
  exact h

/-- Before the slot that is filled, the first with a name is found. -/
theorem readSlot_of_named {dir : Buf} {i j : ℕ} (hf : freeSlot dir = some i) (hj : j < i)
    (hname : slotName dir j = target) : ∃ k < i, readSlot dir target = some k := by
  obtain ⟨hi, -, hbefore⟩ := freeSlot_eq_some_iff.1 hf
  have hex : ∃ k, slotName dir k = target := ⟨j, hname⟩
  have hle : Nat.find hex ≤ j := Nat.find_min' hex hname
  refine ⟨Nat.find hex, by omega, readSlot_eq_some_iff.2
    ⟨by omega, (hbefore _ (by omega)).1, Nat.find_spec hex, fun k hk => ?_⟩⟩
  exact ⟨(hbefore k (by omega)).1, Nat.find_min hex hk⟩

section
variable (h0 : s.io 0 = true) (hc : freeCluster (s.disk s.fatStartSector).buf = some c)
  (hne : s.clusterToSector c ≠ s.rootSector)

include h0 hc hne

/-- A slot that is found before the new entry is found after the write. -/
theorem readTarget_of_hidden {j : ℕ} (hj : readSlot (s.dirBefore c) (formatFatName filename) = some j)
    (hlt : ∀ i, s.slotFor c = some i → j < i) :
    readTarget (s.written filename l s.rootSector).buf (formatFatName filename) =
      (slotCluster (s.dirBefore c) j, slotSize (s.dirBefore c) j) := by
  have hlen := formatFatName_length filename
  rw [readTarget_written h0 hc hne]
  cases hs : s.slotFor c with
  | none => exact readTarget_of_readSlot hj
  | some i =>
      have hji := hlt i hs
      simp only [readTarget_of_readSlot (readSlot_withEntry_of_lt hlen hj hji),
        slotCluster_withEntry_of_ne hlen (Nat.ne_of_lt hji),
        slotSize_withEntry_of_ne hlen (Nat.ne_of_lt hji)]

/-- What is shown if the name leads to the data sector. -/
theorem shown_of_linked (h2 : s.io 2 = true) (hnul : (0 : UInt8) ∉ l) (hl : l.length ≤ 255)
    {cluster size : ℕ} (hcl : cluster ≠ 0) (hsec : s.clusterToSector cluster = s.clusterToSector c)
    (ht : readTarget (s.written filename l s.rootSector).buf target = (cluster, size)) :
    FatState.shownAs s.toGeometry (s.written filename l) target 255 = l.take (min size 255) := by
  simp only [FatState.shownAs, ht, if_neg hcl, hsec]
  rw [written_data h0 hc hne h2, takeWhile_dataSector hnul (by omega) (by omega)]

/-- **A text whose entry gets its slot is read back.** -/
theorem shown_of_enters (h2 : s.io 2 = true) (hname : (0 : UInt8) ∉ filename)
    (hnul : (0 : UInt8) ∉ l) (hl : l.length ≤ 255) (he : s.Enters (formatFatName filename) c) :
    FatState.shownAs s.toGeometry (s.written filename l) (formatFatName filename) 255 = l := by
  obtain ⟨i, hi, hbefore⟩ := he
  have hlen := formatFatName_length filename
  have hbounds := freeCluster_bounds hc
  have ht : readTarget (s.written filename l s.rootSector).buf (formatFatName filename) =
      (c, l.length) := by
    rw [readTarget_written h0 hc hne, hi]
    simp only [readTarget_of_readSlot (readSlot_withEntry hlen (nul_not_mem_formatFatName hname)
      (freeSlot_of_slotFor hi) hbefore), slotCluster_withEntry_self hlen (by omega : c < 2 ^ 16),
      slotSize_withEntry_self hlen (by omega : l.length < 2 ^ 32)]
  rw [shown_of_linked h0 hc hne h2 hnul hl (by omega) rfl ht, List.take_of_length_le (by omega)]

/-- **A text that lands in the sector of an older entry is read back**, cut at its size. -/
theorem shown_of_crossLinked (h2 : s.io 2 = true) (hnul : (0 : UInt8) ∉ l) (hl : l.length ≤ 255)
    {n : ℕ} (hx : s.CrossLinked (formatFatName filename) c n) :
    ∃ j, readSlot (s.dirBefore c) (formatFatName filename) = some j ∧
      FatState.shownAs s.toGeometry (s.written filename l) (formatFatName filename) 255 =
        l.take (min (slotSize (s.dirBefore c) j) 255) := by
  obtain ⟨j, hj, hlt, hcl, hsec, -⟩ := hx
  exact ⟨j, hj, shown_of_linked h0 hc hne h2 hnul hl hcl hsec (readTarget_of_hidden h0 hc hne hj hlt)⟩

end

/-! ### No other way

Four texts tell the ways apart: `A` and `B` of one length, and two that begin with the mark of a
deleted entry. -/

/-- `A`, `B` and these behind `0xE5`. -/
def probes : List (List UInt8) := [[65], [66], [0xE5, 65], [0xE5, 66]]

theorem fileNotFound_ne_probe (hl : l ∈ probes) : fileNotFound.take 255 ≠ l := by
  have h : ∀ l ∈ probes, fileNotFound.take 255 ≠ l := by decide
  exact h l hl

/-- A data sector with a probe that begins with `0xE5` as a directory: a deleted entry and the end
mark. -/
theorem readSlot_probe {x : UInt8} (hnul : (0 : UInt8) ∉ target) :
    readSlot (dataSector (cString [0xE5, x]) 2).buf target = none := by
  have hbyte {k : ℕ} (hk : 2 ≤ k) (hk' : k < 512) :
      (dataSector (cString [0xE5, x]) 2).buf k = 0 := by
    rw [dataSector_eq, buf_toSector hk', show min 2 512 = [0xE5, x].length from rfl, bytesAt_cString,
      put_of_ge (by simpa using hk)]
  rw [Option.eq_none_iff_forall_ne_some]
  intro i hi
  obtain ⟨hlt, hne, hname, -⟩ := readSlot_eq_some_iff.1 hi
  rcases Nat.eq_zero_or_pos i with rfl | hpos
  · apply hnul
    rw [← hname, slotName]
    exact List.mem_map.2 ⟨2, by simp, hbyte (Nat.le_refl 2) (by decide)⟩
  · exact hne (hbyte (by omega) (by omega))

theorem freeSlot_probe (x : UInt8) : freeSlot (dataSector (cString [0xE5, x]) 2).buf = some 0 := by
  have hfirst : (dataSector (cString [0xE5, x]) 2).buf 0 = 0xE5 := by
    rw [dataSector_eq, buf_toSector (by decide), show min 2 512 = [0xE5, x].length from rfl,
      bytesAt_cString]
    rfl
  exact freeSlot_eq_some_iff.2 ⟨by decide, .inr hfirst, nofun⟩

/-- **A text in the root sector is lost.**  It takes the place of the directory; where the entry
is written over it, the text begins with the name. -/
theorem shown_of_root {x : UInt8} (h0 : s.io 0 = true)
    (hc : freeCluster (s.disk s.fatStartSector).buf = some c) (h2 : s.io 2 = true)
    (heq : s.clusterToSector c = s.rootSector) (hname : (0 : UInt8) ∉ filename) :
    FatState.shownAs s.toGeometry (s.written filename [0xE5, x]) (formatFatName filename) 255 =
        (formatFatName filename).take 2 ∨
      FatState.shownAs s.toGeometry (s.written filename [0xE5, x]) (formatFatName filename) 255 =
        fileNotFound.take 255 := by
  have hlen := formatFatName_length filename
  have hnul := nul_not_mem_formatFatName hname
  have hbounds := freeCluster_bounds hc
  have hdata : s.afterData c (cString [0xE5, x]) 2 s.rootSector = dataSector (cString [0xE5, x]) 2 := by
    simp [FatState.afterData, h2, heq]
  have hw : s.written filename [0xE5, x] =
      if s.io 3 && s.io 4 then Function.update (s.afterData c (cString [0xE5, x]) 2) s.rootSector
        (toSector (withEntry (dataSector (cString [0xE5, x]) 2).buf 0 (formatFatName filename) c 2))
      else s.afterData c (cString [0xE5, x]) 2 := by
    have hbefore : s.rootBefore c (cString [0xE5, x]) 2 = (dataSector (cString [0xE5, x]) 2).buf := by
      rw [FatState.rootBefore, hdata]
    have hslot : s.enteredSlot c (cString [0xE5, x]) 2 =
        if s.io 3 && s.io 4 then some 0 else none := by
      rw [FatState.enteredSlot, hbefore, freeSlot_probe]
    rw [FatState.written, disk_write h0 hc, List.length_cons, List.length_singleton, hslot, hbefore]
    split_ifs <;> rfl
  by_cases hio : s.io 3 && s.io 4
  · left
    rw [if_pos hio] at hw
    have ht : readTarget (s.written filename [0xE5, x] s.rootSector).buf (formatFatName filename) =
        (c, 2) := by
      rw [hw]
      simp only [Function.update_self, readTarget_toSector]
      have hread : readSlot (withEntry (dataSector (cString [0xE5, x]) 2).buf 0
          (formatFatName filename) c 2) (formatFatName filename) = some 0 :=
        readSlot_withEntry hlen hnul (freeSlot_probe x) fun i hi => absurd hi i.not_lt_zero
      rw [readTarget_of_readSlot hread, slotCluster_withEntry_self hlen (by omega),
        slotSize_withEntry_self hlen (by omega)]
    have htake : ((dirEntry (formatFatName filename) c 2).drop 0).take 2 =
        (formatFatName filename).take 2 := by
      simp [dirEntry, List.take_append_of_le_length, hlen]
    simp only [FatState.shownAs, ht, if_neg (by omega : c ≠ 0), heq]
    rw [hw]
    simp only [Function.update_self]
    rw [bytesAt_toSector _ (by omega), show min 2 255 = 2 from rfl,
      show (0 : ℕ) = 32 * 0 + 0 from rfl, bytesAt_withEntry hlen (by omega), htake,
      takeWhile_ne_zero fun h => hnul (List.mem_of_mem_take h)]
  · right
    rw [if_neg hio] at hw
    have ht : readTarget (s.written filename [0xE5, x] s.rootSector).buf (formatFatName filename) =
        (0, 0) := by
      rw [hw]
      simp only [hdata, readTarget, readSlot_probe hnul]
    simp only [FatState.shownAs, ht, if_true]

/-- **Where the probes are read back, the name leads to the text.** -/
theorem writesThrough_of_probes (hname : (0 : UInt8) ∉ filename)
    (h : ∀ l ∈ probes, FatState.shownAs s.toGeometry (s.written filename l) (formatFatName filename)
      255 = l) : s.WritesThrough (formatFatName filename) 0 := by
  have hA := h [65] (by decide)
  have hB := h [66] (by decide)
  -- A disk on which `A` and `B` are the same cannot show both.
  have hdiff : FatState.shownAs s.toGeometry (s.written filename [65]) (formatFatName filename) 255 ≠
      FatState.shownAs s.toGeometry (s.written filename [66]) (formatFatName filename) 255 := by
    rw [hA, hB]
    decide
  have hstuck : ¬ (s.io 0 = false ∨ freeCluster (s.disk s.fatStartSector).buf = none) := by
    intro hs
    rw [written_of_stuck hs, written_of_stuck hs] at hdiff
    exact hdiff rfl
  obtain ⟨h0, hc⟩ := not_or.1 hstuck
  rw [Bool.not_eq_false] at h0
  obtain ⟨c, hc⟩ := Option.ne_none_iff_exists'.1 hc
  have h2 : s.io 2 = true := by
    by_contra h2
    have hsame : s.written filename [65] = s.written filename [66] :=
      written_of_data_fail h0 hc (Bool.eq_false_iff.2 h2) rfl
    exact hdiff (by rw [hsame])
  have hne : s.clusterToSector c ≠ s.rootSector := by
    intro heq
    have hlost {x : UInt8} (hx : [0xE5, x] ∈ probes) : (formatFatName filename).take 2 = [0xE5, x] := by
      have hshown := h _ hx
      rcases shown_of_root h0 hc h2 heq hname with hr | hr
      · exact hr.symm.trans hshown
      · exact absurd (hr.symm.trans hshown) (fileNotFound_ne_probe hx)
    have : [0xE5, 65] = [0xE5, (66 : UInt8)] :=
      (hlost (x := 65) (by decide)).symm.trans (hlost (by decide))
    exact absurd this (by decide)
  refine ⟨h0, h2, c, hc, hne, ?_⟩
  by_cases he : s.Enters (formatFatName filename) c
  · exact .inl he
  right
  have hfound : ∃ j, readSlot (s.dirBefore c) (formatFatName filename) = some j ∧
      ∀ i, s.slotFor c = some i → j < i := by
    cases hs : s.slotFor c with
    | none =>
        cases hr : readSlot (s.dirBefore c) (formatFatName filename) with
        | some j => exact ⟨j, rfl, nofun⟩
        | none =>
            have ht : readTarget (s.written filename [65] s.rootSector).buf (formatFatName filename) =
                (0, 0) := by
              rw [readTarget_written h0 hc hne, hs]
              simp only [readTarget, hr]
            simp only [FatState.shownAs, ht, if_true] at hA
            exact absurd hA (fileNotFound_ne_probe (by decide))
    | some i =>
        have hearlier : ∃ j < i, slotName (s.dirBefore c) j = formatFatName filename := by
          by_contra hno
          exact he ⟨i, hs, fun j hj hj' => hno ⟨j, hj, hj'⟩⟩
        obtain ⟨j, hj, hj'⟩ := hearlier
        obtain ⟨k, hk, hr⟩ := readSlot_of_named (freeSlot_of_slotFor hs) hj hj'
        exact ⟨k, hr, fun i' hi' => by cases hi'; exact hk⟩
  obtain ⟨j, hj, hlt⟩ := hfound
  have ht {l : List UInt8} := readTarget_of_hidden (l := l) h0 hc hne hj hlt
  refine ⟨j, hj, hlt, fun hcl => ?_, by_contra fun hsec => ?_, Nat.zero_le _⟩
  · simp only [FatState.shownAs, ht, hcl, if_true] at hA
    exact absurd hA (fileNotFound_ne_probe (by decide))
  · apply hdiff
    have hsame : s.written filename [65] (s.clusterToSector (slotCluster (s.dirBefore c) j)) =
        s.written filename [66] (s.clusterToSector (slotCluster (s.dirBefore c) j)) :=
      written_other h0 hc hne hsec rfl
    simp only [FatState.shownAs, ht, hsame]

/-- **A set of texts that has the probes is read back text for text exactly if the name leads to
each of them.** -/
theorem writtenIs_iff {texts : List UInt8 → Prop} (hname : (0 : UInt8) ∉ filename)
    (hprobes : ∀ l ∈ probes, texts l) (hnul : ∀ l, texts l → (0 : UInt8) ∉ l)
    (hlen : ∀ l, texts l → l.length ≤ 255) :
    (∀ l, texts l → FatState.shownAs s.toGeometry (s.written filename l) (formatFatName filename)
      255 = l) ↔ ∀ l, texts l → s.WritesThrough (formatFatName filename) l.length := by
  constructor
  · intro h l hl
    obtain ⟨h0, h2, c, hc, hne, hway⟩ := writesThrough_of_probes hname fun l hl => h l (hprobes l hl)
    refine ⟨h0, h2, c, hc, hne, hway.imp_right fun hx => ?_⟩
    obtain ⟨j, hj, hshown⟩ := shown_of_crossLinked h0 hc hne h2 (hnul l hl) (hlen l hl) hx
    rw [h l hl] at hshown
    have hle := congrArg List.length hshown
    obtain ⟨j', hj', hlt, hcl, hsec, -⟩ := hx
    obtain rfl := Option.some.inj (hj.symm.trans hj')
    refine ⟨j, hj, hlt, hcl, hsec, ?_⟩
    rw [List.length_take] at hle
    omega
  · intro h l hl
    obtain ⟨h0, h2, c, hc, hne, he | hx⟩ := h l hl
    · exact shown_of_enters h0 hc hne h2 hname (hnul l hl) (hlen l hl) he
    · obtain ⟨j, hj, hshown⟩ := shown_of_crossLinked h0 hc hne h2 (hnul l hl) (hlen l hl) hx
      obtain ⟨j', hj', -, -, -, hsize⟩ := hx
      obtain rfl := Option.some.inj (hj.symm.trans hj')
      have := hlen l hl
      rw [hshown, List.take_of_length_le (by omega)]

end

end Fat32
end AiOsExchange
