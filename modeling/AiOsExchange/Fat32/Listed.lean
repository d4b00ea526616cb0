/-
# From a listed line back to its entry

`fs_get_dir_list` leaves the padding out and puts a dot before an extension; `format_fat_name`
splits at the first dot, pads and takes letters to upper case.  They are inverse on short names:

| base | extension | line | |
| --- | --- | --- | --- |
| 1 to 8 bytes | 1 to 3 bytes | `BASE.EXT` | |
| 1 to 8 bytes | none | `BASE` | no dot |
| none | 1 to 3 bytes | `.EXT` | |
| none | none | | an empty line |

The bytes of a short name are printable and none is a blank, a dot or a lower-case letter, so that
a line says where its base ends (`line_inj`) and the case it is typed in does not matter
(`formatFatName_congr`).
-/

import AiOsExchange.Fat32.Lookup

namespace AiOsExchange
namespace Fat32

open CMemory

/-! ### Short names -/

/-- A byte of a short name: printable, and no blank, dot or lower-case letter. -/
def Plain (c : UInt8) : Prop := 33 ≤ c ∧ c ≤ 126 ∧ c ≠ 46 ∧ ¬ (97 ≤ c ∧ c ≤ 122)

/-- A base of up to 8 bytes and an extension of up to 3. -/
structure ShortName where
  base : List UInt8
  ext : List UInt8
  base_le : base.length ≤ 8
  ext_le : ext.length ≤ 3
  plain : ∀ c ∈ base ++ ext, Plain c

namespace ShortName

/-- The 11 bytes of a name in its entry, with blanks on the right. -/
def bytes (name : ShortName) : List UInt8 :=
  name.base.rightpad 8 32 ++ name.ext.rightpad 3 32

/-- The line of a name, without the line feed. -/
def line (name : ShortName) : List UInt8 :=
  name.base ++ if name.ext = [] then [] else 46 :: name.ext

end ShortName

theorem Plain.upper_eq {c : UInt8} (h : Plain c) : upper c = c := if_neg h.2.2.2

theorem Plain.ne_dot {c : UInt8} (h : Plain c) : c ≠ 46 := h.2.2.1

theorem Plain.ne_blank {c : UInt8} (h : Plain c) : c ≠ 32 := by
  rintro rfl
  exact absurd h.1 (by decide)

theorem Plain.ne_feed {c : UInt8} (h : Plain c) : c ≠ 10 := by
  rintro rfl
  exact absurd h.1 (by decide)

section
variable {name name' : ShortName} {dir : Buf} {i j : ℕ}

theorem ShortName.plain_base (name : ShortName) : ∀ c ∈ name.base, Plain c :=
  fun c hc => name.plain c (List.mem_append_left _ hc)

theorem ShortName.plain_ext (name : ShortName) : ∀ c ∈ name.ext, Plain c :=
  fun c hc => name.plain c (List.mem_append_right _ hc)

theorem map_upper_of_plain {l : List UInt8} (h : ∀ c ∈ l, Plain c) : l.map upper = l :=
  (List.map_congr_left fun c hc => (h c hc).upper_eq).trans l.map_id

theorem ShortName.feed_not_mem_line (name : ShortName) : (10 : UInt8) ∉ name.line := by
  intro h
  rcases List.mem_append.1 h with hb | he
  · exact (name.plain_base 10 hb).ne_feed rfl
  · split_ifs at he with hext
    · exact List.not_mem_nil he
    · rcases List.mem_cons.1 he with heq | he
      · exact absurd heq (by decide)
      · exact (name.plain_ext 10 he).ne_feed rfl

/-- **A line leads back to the 11 bytes of its name.** -/
theorem ShortName.formatFatName_line (name : ShortName) : formatFatName name.line = name.bytes := by
  have hbase : name.base.takeWhile (fun c => decide (c ≠ 46)) = name.base :=
    List.takeWhile_eq_self_iff.2 fun c hc => decide_eq_true (name.plain_base c hc).ne_dot
  have hnil : name.base.dropWhile (fun c => decide (c ≠ 46)) = [] :=
    List.dropWhile_eq_nil_iff.2 fun c hc => decide_eq_true (name.plain_base c hc).ne_dot
  have hall : ∀ c ∈ name.base, decide (c ≠ 46) = true :=
    fun c hc => decide_eq_true (name.plain_base c hc).ne_dot
  rw [ShortName.line, ShortName.bytes, formatFatName]
  split_ifs with hext
  · rw [List.append_nil, hbase, hnil, List.take_of_length_le name.base_le,
      map_upper_of_plain name.plain_base, hext]
    rfl
  · rw [List.takeWhile_append_of_pos hall, List.dropWhile_append_of_pos hall,
      List.takeWhile_cons_of_neg (by decide), List.dropWhile_cons_of_neg (by decide),
      List.append_nil, List.take_of_length_le name.base_le, map_upper_of_plain name.plain_base,
      List.drop_one, List.tail_cons, List.take_of_length_le name.ext_le,
      map_upper_of_plain name.plain_ext]

theorem ShortName.line_inj (h : name.line = name'.line) : name.bytes = name'.bytes := by
  rw [← name.formatFatName_line, ← name'.formatFatName_line, h]

/-! ### The line of a slot -/

theorem filter_rightpad {l : List UInt8} (n : ℕ) (h : ∀ c ∈ l, Plain c) :
    (l.rightpad n 32).filter (fun c => decide (c ≠ 32)) = l := by
  rw [List.rightpad, List.filter_append, List.filter_replicate_of_neg (by decide), List.append_nil]
  exact List.filter_eq_self.2 fun c hc => decide_eq_true (h c hc).ne_blank

/-- The first byte of an extension is no blank, and there is a blank where there is none. -/
theorem ext_head (h : bytesAt dir (32 * i + 8) 3 = name.ext.rightpad 3 32) :
    dir (32 * i + 8) = 32 ↔ name.ext = [] := by
  have hhead : some (dir (32 * i + 8)) = (name.ext.rightpad 3 32).head? := by
    rw [← h]
    rfl
  cases hext : name.ext with
  | nil =>
      rw [hext] at hhead
      exact iff_of_true (Option.some.inj hhead) rfl
  | cons c ext =>
      rw [hext] at hhead
      have hc : dir (32 * i + 8) = c := Option.some.inj hhead
      refine iff_of_false (fun h32 => ?_) (List.cons_ne_nil c ext)
      exact (name.plain_ext c (by simp [hext])).ne_blank (hc.symm.trans h32)

/-- The line that is printed for a short name is its own. -/
theorem slotLine_eq (h : slotName dir i = name.bytes) : slotLine dir i = name.line ++ [10] := by
  have hlen : (bytesAt dir (32 * i) 8).length = (name.base.rightpad 8 32).length := by
    rw [bytesAt_length, List.length_rightpad, Nat.max_eq_left name.base_le]
  rw [slotName, ShortName.bytes, bytesAt_add dir (32 * i) 8 3] at h
  obtain ⟨hbase, hext⟩ := List.append_inj h hlen
  rw [slotLine, ShortName.line, hbase, hext, filter_rightpad 8 name.plain_base,
    filter_rightpad 3 name.plain_ext]
  simp only [ne_eq, ext_head hext, ite_not]

/-! ### The listing -/

/-- What a listing shows of a slot with a short name: a line of its own which, typed in any case,
leads back to the entry. -/
structure LeadsBack (dir : Buf) (listed : List ℕ) (i : ℕ) (line : List UInt8) : Prop where
  shown : slotLine dir i = line ++ [10]
  one_line : (10 : UInt8) ∉ line
  back : formatFatName line = slotName dir i
  typed : ∀ l : List UInt8, l.map upper = line.map upper → formatFatName l = slotName dir i
  own : ∀ j ∈ listed, ∀ name : ShortName, slotName dir j = name.bytes →
    slotName dir j ≠ slotName dir i → slotLine dir j ≠ slotLine dir i

theorem leadsBack (listed : List ℕ) (h : slotName dir i = name.bytes) :
    LeadsBack dir listed i name.line where
  shown := slotLine_eq h
  one_line := name.feed_not_mem_line
  back := name.formatFatName_line.trans h.symm
  typed _ hl := (formatFatName_congr hl).trans (name.formatFatName_line.trans h.symm)
  own j _ name' hj hne hline := by
    rw [slotLine_eq hj, slotLine_eq h] at hline
    exact hne (by rw [hj, h, ShortName.line_inj (List.append_cancel_right hline)])

end

theorem shownSlots_length (dir : Buf) : ∀ is : List ℕ, (shownSlots dir is).length ≤ is.length
  | [] => Nat.le_refl 0
  | i :: is => by
      have ih := shownSlots_length dir is
      rw [shownSlots, List.length_cons]
      split_ifs
      · exact Nat.zero_le _
      · omega
      · rw [List.length_cons]
        omega

/-- Each line has at most 13 bytes. -/
theorem lines_length (dir : Buf) :
    ∀ is : List ℕ, (is.flatMap (slotLine dir)).length ≤ 13 * is.length
  | [] => Nat.le_refl 0
  | i :: is => by
      have ih := lines_length dir is
      have hline := slotLine_length dir i
      rw [List.flatMap_cons, List.length_append, List.length_cons]
      omega

/-- The slots that are listed after the read of the sector; none if it fails. -/
def FatState.listed (s : FatState) : List ℕ :=
  if s.io 0 then listedSlots (load (s.disk s.rootSector) s.diskBuffer) else []

/-- **Listed names lead back to their entries.**  The listing in a buffer of 256 bytes is made of
the lines of its slots, all in full, and for each slot with a short name the line leads back to the
11 bytes in the entry, in whichever case it is typed; other short names have other lines. -/
theorem listed_lead_back (s : FatState) (buffer : Buf) :
    (fsGetDirList buffer 256 s).1 = put buffer 0
      (s.listed.flatMap (slotLine (load (s.disk s.rootSector) s.diskBuffer)) ++ [0]) ∧
    (s.listed.flatMap (slotLine (load (s.disk s.rootSector) s.diskBuffer)) ++ [0]).length ≤ 256 ∧
    ∀ i ∈ s.listed, ∀ name : ShortName,
      slotName (load (s.disk s.rootSector) s.diskBuffer) i = name.bytes →
        ∃ line, LeadsBack (load (s.disk s.rootSector) s.diskBuffer) s.listed i line := by
  refine ⟨?_, ?_, fun i _ name h => ⟨name.line, leadsBack s.listed h⟩⟩
  · cases h0 : s.io 0 with
    | true => rw [FatState.listed, if_pos h0, fsGetDirList_lines buffer h0 (by decide)]
    | false =>
        rw [FatState.listed, if_neg (by simp [h0]), fsGetDirList, FatState.readDisk,
          if_neg (by simp [h0])]
        rfl
  · have hlines := lines_length (load (s.disk s.rootSector) s.diskBuffer) s.listed
    have hslots : s.listed.length ≤ 16 := by
      rw [FatState.listed]
      split_ifs
      · exact shownSlots_length _ (List.range 16)
      · exact Nat.zero_le 16
    rw [List.length_append, List.length_singleton]
    omega

end Fat32
end AiOsExchange
