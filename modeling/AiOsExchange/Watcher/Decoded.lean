/-
# Reading a receipt back

A receipt is worth keeping if what it names can be read off it: the sixteen hexadecimal digits
behind `TX: 0x` are the hash, the numeral behind ` | VOL: ` is the volume, and nothing else is in
the text (`IsReceipt`).  The digits are Mathlib's: the loop of `i32_to_dec_str` is `Nat.digits 10`
(`tempDigits_eq`), and sixteen nibbles are enough for 64 bits (`readDigits_u64ToHexStr`).

The text in the ring reads back as the hash and the volume it was made of, for every hash and
every volume but one (`decodable_iff`): the text of `INT_MIN` breaks off behind the sign.  No two
receipts are alike even so (`receiptContext_inj`).
-/

import AiOsExchange.Watcher.Receipt
import Mathlib.Data.Nat.Digits.Defs

namespace AiOsExchange
namespace Watcher

open CMemory

/-! ### Rows of digits -/

/-- The number a row of digits stands for, the most significant first; `digits` are those from
zero on. -/
def readDigits (digits ds : List UInt8) : Option ℕ :=
  if ds = [] ∨ ¬ ds ⊆ digits then none
  else some (Nat.ofDigits digits.length (ds.reverse.map digits.idxOf))

/-- **A number written in digits is read as that number.** -/
theorem readDigits_written {digits : List UInt8} {ns : List ℕ} (hnodup : digits.Nodup)
    (hne : ns ≠ []) (hlt : ∀ n ∈ ns, n < digits.length) :
    readDigits digits (ns.map fun n => digits.getD n 0).reverse =
      some (Nat.ofDigits digits.length ns) := by
  have hget (n : ℕ) (h : n ∈ ns) : digits.getD n 0 = digits.get ⟨n, hlt n h⟩ := by
    rw [List.getD_eq_getElem?_getD, List.getElem?_eq_getElem (hlt n h)]
    rfl
  have hsub : (ns.map fun n => digits.getD n 0).reverse ⊆ digits := by
    intro b hb
    rw [List.mem_reverse, List.mem_map] at hb
    obtain ⟨n, hn, rfl⟩ := hb
    rw [hget n hn]
    exact List.get_mem _ _
  have hback : (ns.map fun n => digits.getD n 0).map digits.idxOf = ns := by
    rw [List.map_map]
    refine (List.map_congr_left fun n hn => ?_).trans (List.map_id ns)
    rw [Function.comp_apply, hget n hn]
    exact hnodup.idxOf_getElem n (hlt n hn)
  have hrow : (ns.map fun n => digits.getD n 0).reverse ≠ [] := by simpa using hne
  rw [readDigits, if_neg (not_or.2 ⟨hrow, not_not.2 hsub⟩), List.reverse_reverse, hback]

/-! ### The two numerals of a receipt -/

/-- The nibbles of a number, the least significant first, stand for its remainder. -/
theorem ofDigits_nibbles (n width : ℕ) :
    Nat.ofDigits 16 ((List.range width).map fun i => n / 16 ^ i % 16) = n % 16 ^ width := by
  induction width with
  | zero => simp [Nat.mod_one]
  | succ width ih =>
      rw [List.range_succ, List.map_append, List.map_singleton, Nat.ofDigits_append, ih,
        Nat.ofDigits_singleton, List.length_map, List.length_range, Nat.mod_pow_succ]

theorem readDigits_u64ToHexStr (val : UInt64) :
    readDigits hexChars (u64ToHexStr val) = some val.toNat := by
  have hrow : u64ToHexStr val =
      (((List.range 16).map fun i => val.toNat / 16 ^ i % 16).map fun n => hexChars.getD n 0).reverse :=
    rfl
  rw [hrow, readDigits_written (by decide) (by simp)]
  · show some (Nat.ofDigits 16 _) = _
    rw [ofDigits_nibbles]
    exact congrArg some (Nat.mod_eq_of_lt val.toNat_lt)
  · intro n hn
    obtain ⟨i, -, rfl⟩ := List.mem_map.1 hn
    exact Nat.mod_lt _ (by decide)

/-- `'0'` to `'9'`. -/
def decChars : List UInt8 := ascii "0123456789"

theorem decChars_getD : ∀ d < 10, UInt8.ofNat (d + 48) = decChars.getD d 0 := by decide

/-- The digit loop writes Mathlib's digits. -/
theorem tempDigits_eq {fuel val : ℕ} (h : val < 10 ^ fuel) :
    tempDigits fuel val = (Nat.digits 10 val).map fun n => decChars.getD n 0 := by
  induction fuel generalizing val with
  | zero =>
      obtain rfl : val = 0 := by omega
      rfl
  | succ fuel ih =>
      rw [tempDigits]
      split_ifs with h0
      · rw [h0]
        rfl
      · have hdiv : val / 10 < 10 ^ fuel := by
          rw [Nat.pow_succ] at h
          omega
        rw [ih hdiv, decChars_getD _ (Nat.mod_lt _ (by decide)),
          Nat.digits_def' (by decide) (Nat.pos_of_ne_zero h0), List.map_cons]

theorem readDigits_tempDigits {fuel val : ℕ} (h0 : 0 < val) (h : val < 10 ^ fuel) :
    readDigits decChars (tempDigits fuel val).reverse = some val := by
  rw [tempDigits_eq h, readDigits_written (by decide)]
  · exact congrArg some (Nat.ofDigits_digits 10 val)
  · exact Nat.digits_ne_nil_iff_ne_zero.2 (by omega)
  · exact fun n hn => Nat.digits_lt_base (by decide) hn

/-- The number a signed decimal numeral stands for. -/
def readNumeral : List UInt8 → Option ℤ
  | [] => none
  | b :: ds =>
      if b = 45 then (readDigits decChars ds).map fun n : ℕ => -(n : ℤ)
      else (readDigits decChars (b :: ds)).map fun n : ℕ => (n : ℤ)

/-- A row of digits has no sign. -/
theorem readNumeral_of_digits {ds : List UInt8} {n : ℕ} (h : readDigits decChars ds = some n) :
    readNumeral ds = some (n : ℤ) := by
  cases ds with
  | nil => simp [readDigits] at h
  | cons b ds =>
      have hb : b ∈ decChars := by
        by_contra hb
        rw [readDigits, if_pos (.inr fun hsub => hb (hsub (List.mem_cons_self ..)))] at h
        cases h
      have hsign : b ≠ 45 := by
        rintro rfl
        exact absurd hb (by decide)
      rw [readNumeral, if_neg hsign, h]
      rfl

theorem i32ToDecStr_of_pos {val : Int32} (h : 0 < val.toInt) :
    i32ToDecStr val = (tempDigits 16 val.toInt.toNat).reverse := by
  have h0 : val.toInt ≠ 0 := by omega
  have hneg : ¬ val.toInt < 0 := by omega
  simp [i32ToDecStr, h0, hneg]

theorem i32ToDecStr_of_neg {val : Int32} (h : val.toInt < 0) :
    i32ToDecStr val = 45 :: (tempDigits 16 (-val).toInt.toNat).reverse := by
  have h0 : val.toInt ≠ 0 := by omega
  have hsign : ascii "-" = [45] := by decide
  simp [i32ToDecStr, h0, h, hsign]

/-- **`i32_to_dec_str` writes a numeral of its argument, `INT_MIN` left out.** -/
theorem readNumeral_i32ToDecStr {val : Int32} (h : val.toInt ≠ -2 ^ 31) :
    readNumeral (i32ToDecStr val) = some val.toInt := by
  have hlt := val.toInt_lt
  have hge := val.le_toInt
  rcases lt_trichotomy val.toInt 0 with hneg | h0 | hpos
  · have hval : (-val).toInt = -val.toInt := by
      rw [Int32.toInt_neg]
      exact Int.bmod_eq_of_le (by omega) (by omega)
    have hdigits : readDigits decChars (tempDigits 16 (-val).toInt.toNat).reverse =
        some (-val).toInt.toNat := readDigits_tempDigits (by omega) (by omega)
    rw [i32ToDecStr_of_neg hneg, readNumeral, if_pos rfl, hdigits, Option.map_some]
    exact congrArg some (by omega)
  · obtain rfl : val = 0 := Int32.toInt_inj.1 h0
    decide
  · have hdigits : readDigits decChars (tempDigits 16 val.toInt.toNat).reverse =
        some val.toInt.toNat := readDigits_tempDigits (by omega) (by omega)
    rw [i32ToDecStr_of_pos hpos, readNumeral_of_digits hdigits]
    exact congrArg some (by omega)

/-! ### Whole receipts -/

/-- The text of a receipt, complete: `txHash` in sixteen digits, `volume` as a signed numeral. -/
def IsReceipt (text : List UInt8) (txHash : ℕ) (volume : ℤ) : Prop :=
  ∃ hashStr volStr, text = ascii "TX: 0x" ++ hashStr ++ ascii " | VOL: " ++ volStr ∧
    hashStr.length = 16 ∧ readDigits hexChars hashStr = some txHash ∧
    readNumeral volStr = some volume

/-- What a receipt says. -/
def readReceipt (text : List UInt8) : Option (ℕ × ℤ) :=
  if text.take 6 = ascii "TX: 0x" ∧ (text.drop 22).take 8 = ascii " | VOL: " then do
    let txHash ← readDigits hexChars ((text.drop 6).take 16)
    let volume ← readNumeral (volumeText text)
    some (txHash, volume)
  else none

/-- The parts of a text with sixteen bytes between `TX: 0x` and ` | VOL: `. -/
theorem receipt_parts {hashStr : List UInt8} (volStr : List UInt8) (h : hashStr.length = 16) :
    let text := ascii "TX: 0x" ++ hashStr ++ ascii " | VOL: " ++ volStr
    text.take 6 = ascii "TX: 0x" ∧ (text.drop 6).take 16 = hashStr ∧
      (text.drop 22).take 8 = ascii " | VOL: " ∧ volumeText text = volStr := by
  have h6 : (ascii "TX: 0x").length = 6 := by decide
  have h8 : (ascii " | VOL: ").length = 8 := by decide
  have h22 : (ascii "TX: 0x" ++ hashStr).length = 22 := by rw [List.length_append, h6, h]
  have h30 : (ascii "TX: 0x" ++ hashStr ++ ascii " | VOL: ").length = 30 := by
    rw [List.length_append, h22, h8]
  refine ⟨?_, ?_, ?_, List.drop_left' h30⟩
  · rw [List.append_assoc, List.append_assoc, List.take_left' h6]
  · rw [List.append_assoc, List.append_assoc, List.drop_left' h6, List.take_left' h]
  · rw [List.append_assoc, List.drop_left' h22, List.take_left' h8]

/-- A text reads as what it is a receipt of. -/
theorem readReceipt_eq_some_iff {text : List UInt8} {txHash : ℕ} {volume : ℤ} :
    readReceipt text = some (txHash, volume) ↔ IsReceipt text txHash volume := by
  constructor
  · intro h
    unfold readReceipt at h
    split_ifs at h with hparts
    obtain ⟨n, hn, h⟩ := Option.bind_eq_some_iff.1 h
    obtain ⟨v, hv, h⟩ := Option.bind_eq_some_iff.1 h
    cases h
    have hlen : ((text.drop 6).take 16).length = 16 := by
      have h8 := congrArg List.length hparts.2
      have hvol : (ascii " | VOL: ").length = 8 := by decide
      rw [List.length_take, List.length_drop, hvol] at h8
      rw [List.length_take, List.length_drop]
      omega
    have h22 : text.drop 22 = (text.drop 6).drop 16 := by rw [List.drop_drop]
    have h30 : text.drop 30 = (text.drop 22).drop 8 := by rw [List.drop_drop]
    refine ⟨(text.drop 6).take 16, volumeText text, ?_, hlen, hn, hv⟩
    rw [← hparts.1, ← hparts.2, volumeText, h30, List.append_assoc, List.take_append_drop, h22,
      List.append_assoc, List.take_append_drop, List.take_append_drop]
  · rintro ⟨hashStr, volStr, rfl, hlen, hhash, hvol⟩
    obtain ⟨h1, h2, h3, h4⟩ := receipt_parts volStr hlen
    rw [readReceipt, if_pos ⟨h1, h3⟩, h2, h4, hhash, hvol]
    rfl

/-- **Above `INT_MIN`, a receipt says what it was made of.** -/
theorem isReceipt_receiptContext (txHash : UInt64) {volume : Int32} (h : volume.toInt ≠ -2 ^ 31) :
    IsReceipt (receiptContext txHash volume) txHash.toNat volume.toInt :=
  ⟨_, _, rfl, u64ToHexStr_length _, readDigits_u64ToHexStr _, readNumeral_i32ToDecStr h⟩

/-- Of a bare sign there is no volume to read. -/
theorem readReceipt_min (txHash : UInt64) {volume : Int32} (h : volume.toInt = -2 ^ 31) :
    readReceipt (receiptContext txHash volume) = none := by
  have hvol : readNumeral (volumeText (receiptContext txHash volume)) = none := by
    rw [volumeText_receiptContext, i32ToDecStr_min h]
    decide
  rw [readReceipt, hvol]
  split_ifs
  · exact Option.bind_eq_none_iff.2 fun _ _ => rfl
  · rfl

/-- **No two receipts are alike**, that of `INT_MIN` among them. -/
theorem receiptContext_inj {txHash txHash' : UInt64} {volume volume' : Int32}
    (h : receiptContext txHash volume = receiptContext txHash' volume') :
    txHash = txHash' ∧ volume = volume' := by
  constructor
  · have hhex : u64ToHexStr txHash = u64ToHexStr txHash' := by
      have := congrArg (fun text => (text.drop 6).take 16) h
      rwa [receiptContext, receiptContext, (receipt_parts _ (u64ToHexStr_length _)).2.1,
        (receipt_parts _ (u64ToHexStr_length _)).2.1] at this
    have := (readDigits_u64ToHexStr txHash).symm.trans
      ((congrArg (readDigits hexChars) hhex).trans (readDigits_u64ToHexStr txHash'))
    exact UInt64.toNat_inj.1 (Option.some.inj this)
  · by_cases hv : volume.toInt = -2 ^ 31 <;> by_cases hv' : volume'.toInt = -2 ^ 31
    · exact Int32.toInt_inj.1 (hv.trans hv'.symm)
    · have := readReceipt_min txHash hv
      rw [h, readReceipt_eq_some_iff.2 (isReceipt_receiptContext txHash' hv')] at this
      cases this
    · have := readReceipt_min txHash' hv'
      rw [← h, readReceipt_eq_some_iff.2 (isReceipt_receiptContext txHash hv)] at this
      cases this
    · have hread := readReceipt_eq_some_iff.2 (isReceipt_receiptContext txHash hv)
      rw [h, readReceipt_eq_some_iff.2 (isReceipt_receiptContext txHash' hv')] at hread
      have hpair := Option.some.inj hread
      exact Int32.toInt_inj.1 (congrArg Prod.snd hpair).symm

/-- A 32-bit numeral is ten digits and a sign at most. -/
theorem i32ToDecStr_length_le_eleven (val : Int32) : (i32ToDecStr val).length ≤ 11 := by
  have hlt := val.toInt_lt
  have hlen (n : ℕ) (h : n < 10 ^ 10) : (tempDigits 16 n).length ≤ 10 := by
    have h16 : n < 10 ^ 16 := by omega
    rw [tempDigits_eq h16, ← tempDigits_eq h]
    exact tempDigits_length_le 10 n
  have hneg := (-val).toInt_lt
  rcases lt_trichotomy val.toInt 0 with h | h | h
  · have := hlen (-val).toInt.toNat (by omega)
    rw [i32ToDecStr_of_neg h, List.length_cons, List.length_reverse]
    omega
  · obtain rfl : val = 0 := Int32.toInt_inj.1 h
    decide
  · have := hlen val.toInt.toNat (by omega)
    rw [i32ToDecStr_of_pos h, List.length_reverse]
    omega

/-- The text `watcher_commit_ledger` leaves in the ring. -/
def storedReceipt (txHash : UInt64) (volume : Int32) (timer : UInt64) (w : WatcherState) :
    List UInt8 :=
  ((watcherCommitLedger txHash volume timer w).events w.head).text

/-- What the ledger owes its readers: the three buffers have room for their strings and the NUL,
the text in the ring reads back as the hash and the volume, and no other commit leaves that
text. -/
structure Decodable (txHash : UInt64) (volume : Int32) : Prop where
  hashStr : (u64ToHexStr txHash).length < 17
  volStr : (i32ToDecStr volume).length < 16
  contextBuf : (receiptContext txHash volume).length < 64
  readBack : ∀ timer w,
    readReceipt (storedReceipt txHash volume timer w) = some (txHash.toNat, volume.toInt)
  distinct : ∀ txHash' volume' timer timer' w w',
    storedReceipt txHash' volume' timer' w' = storedReceipt txHash volume timer w →
      txHash' = txHash ∧ volume' = volume

/-- **Every receipt but that of `INT_MIN` can be decoded.** -/
theorem decodable_iff (txHash : UInt64) (volume : Int32) :
    Decodable txHash volume ↔ volume ≠ Int32.minValue := by
  have hmin : volume.toInt = -2 ^ 31 ↔ volume = Int32.minValue := by
    rw [← Int32.toInt_inj, Int32.toInt_minValue]
  constructor
  · intro h hv
    have := h.readBack 0 (watcherInit ⟨fun _ => ⟨0, .none, 0, fun _ => 0⟩, 0, 0, 0, 0⟩)
    rw [storedReceipt, commit_text, readReceipt_min txHash (hmin.2 hv)] at this
    cases this
  · intro hv
    have hlen := i32ToDecStr_length_le_eleven volume
    refine ⟨?_, by omega, Nat.lt_succ_of_le (receiptContext_length_le _ _), ?_, ?_⟩
    · rw [u64ToHexStr_length]
      decide
    · intro timer w
      rw [storedReceipt, commit_text, readReceipt_eq_some_iff]
      exact isReceipt_receiptContext txHash (hmin.not.2 hv)
    · intro txHash' volume' timer timer' w w' h
      rw [storedReceipt, storedReceipt, commit_text, commit_text] at h
      exact receiptContext_inj h

/-- The receipt of `INT_MIN` ends with the sign of its volume. -/
theorem min_volume_lost : ¬ ∀ txHash volume, Decodable txHash volume := by
  intro h
  have := (h 0 Int32.minValue).readBack 0
    (watcherInit ⟨fun _ => ⟨0, .none, 0, fun _ => 0⟩, 0, 0, 0, 0⟩)
  rw [storedReceipt, commit_text, readReceipt_min 0 (by decide)] at this
  cases this

end Watcher
end AiOsExchange
