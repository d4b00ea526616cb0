/-
# The text of a receipt

`watcher_commit_ledger` writes `TX: 0x`, sixteen hexadecimal digits, ` | VOL: ` and the volume
in decimal.  The text is short and has no NUL, so the ring slot holds all of it
(`commit_text`), the volume from byte 30 on (`volumeText_receiptContext`).

`i32_to_dec_str` writes the decimal numeral of every 32-bit number except `INT_MIN`, whose
negation is itself: for it the digit loop is skipped and only the sign is written
(`i32ToDecStr_eq`, `i32ToDecStr_min`).  A 64-bit volume is cut to its low 32 bits before it
gets here, so the numeral written is that of the volume exactly for `-2^31 < v < 2^31`
(`decStr_toInt32_iff`).
-/

import AiOsExchange.Watcher.State

namespace AiOsExchange
namespace Watcher

open CMemory

theorem ascii_append (s t : String) : ascii (s ++ t) = ascii s ++ ascii t := by
  simp [ascii]

/-- Strings of characters below 256 have different bytes. -/
theorem ascii_injOn {s t : String} (hs : ∀ c ∈ s.toList, c.toNat < 256)
    (ht : ∀ c ∈ t.toList, c.toNat < 256) (h : ascii s = ascii t) : s = t := by
  have key : ∀ l l' : List Char, (∀ c ∈ l, c.toNat < 256) → (∀ c ∈ l', c.toNat < 256) →
      l.map (fun c => UInt8.ofNat c.toNat) = l'.map (fun c => UInt8.ofNat c.toNat) → l = l' := by
    intro l
    induction l with
    | nil =>
        intro l' _ _ h
        simpa using h.symm
    | cons c l ih =>
        intro l' hl hl' h
        cases l' with
        | nil => simp at h
        | cons c' l' =>
            simp only [List.map_cons, List.cons.injEq] at h
            have hc := congrArg UInt8.toNat h.1
            simp only [UInt8.toNat_ofNat'] at hc
            rw [Nat.mod_eq_of_lt (hl c (by simp)), Nat.mod_eq_of_lt (hl' c' (by simp))] at hc
            rw [Char.toNat_inj.1 hc, ih l' (fun d hd => hl d (by simp [hd]))
              (fun d hd => hl' d (by simp [hd])) h.2]
  exact String.toList_inj.1 (key _ _ hs ht h)

/-! ### Decimal digits -/

theorem digitChar_toNat : ∀ d < 10, (Nat.digitChar d).toNat = d + 48 := by decide

/-- The digit loop writes the decimal digits, least significant first. -/
theorem tempDigits_reverse {fuel val : ℕ} (h0 : 0 < val) (h : val < 10 ^ fuel) :
    (tempDigits fuel val).reverse = ascii val.repr := by
  rw [Nat.repr_eq_ofList_toDigits, ascii, String.toList_ofList]
  induction fuel generalizing val with
  | zero => simp at h; omega
  | succ fuel ih =>
      have hd := digitChar_toNat (val % 10) (Nat.mod_lt _ (by decide))
      rw [tempDigits, if_neg (by omega), List.reverse_cons]
      rcases Nat.lt_or_ge val 10 with hlt | hge
      · have hzero : tempDigits fuel (val / 10) = [] := by
          rw [Nat.div_eq_of_lt hlt]
          cases fuel <;> rfl
        rw [hzero, Nat.toDigits_of_lt_base hlt]
        rw [Nat.mod_eq_of_lt hlt] at hd ⊢
        simp [hd]
      · have hdiv : val / 10 < 10 ^ fuel := by
          rw [Nat.pow_succ] at h
          omega
        rw [ih (by omega) hdiv, Nat.toDigits_of_base_le (by decide) hge, List.map_append,
          List.map_singleton, hd]

/-- The numerals of the integers are ASCII. -/
theorem toString_lt (v : ℤ) : ∀ c ∈ (toString v).toList, c.toNat < 256 := by
  have hdigit : ∀ n : ℕ, ∀ c ∈ (n.repr).toList, c.toNat < 256 := by
    intro n c hc
    rw [Nat.repr_eq_ofList_toDigits, String.toList_ofList] at hc
    have := Nat.isDigit_of_mem_toDigits (by decide) (by decide) hc
    simp only [Char.isDigit, Bool.and_eq_true, decide_eq_true_eq] at this
    have h9 : c.val.toNat ≤ 57 := by simpa using UInt32.le_iff_toNat_le.1 this.2
    have : c.toNat = c.val.toNat := rfl
    omega
  intro c hc
  rw [Int.toString_eq_repr, Int.repr_eq_if] at hc
  split_ifs at hc
  · exact hdigit _ c hc
  · rw [String.toList_append, List.mem_append] at hc
    rcases hc with hc | hc
    · simp at hc
      subst hc
      decide
    · exact hdigit _ c hc

theorem sign_not_mem_repr (n : ℕ) : '-' ∉ n.repr.toList := by
  intro h
  rw [Nat.repr_eq_ofList_toDigits, String.toList_ofList] at h
  have := Nat.isDigit_of_mem_toDigits (by decide) (by decide) h
  revert this
  decide

/-- The digits of a number, behind its sign if it is negative. -/
theorem toString_toList (v : ℤ) :
    (toString v).toList = (if 0 ≤ v then [] else ['-']) ++ v.natAbs.repr.toList := by
  rw [Int.toString_eq_repr, Int.repr_eq_if]
  split_ifs with h
  · rw [List.nil_append, show v.natAbs = v.toNat by omega]
  · rw [String.toList_append, show v.natAbs = (-v).toNat by omega]
    rfl

/-- No integer is written as a bare sign. -/
theorem toString_ne_sign (v : ℤ) : toString v ≠ "-" := by
  intro h
  have h' := congrArg String.toList h
  rw [toString_toList] at h'
  split_ifs at h' with hv
  · exact sign_not_mem_repr _ (by rw [← List.nil_append v.natAbs.repr.toList, h']; decide)
  · simp at h'

/-- Different numbers have different numerals. -/
theorem toString_injective {a b : ℤ} (h : toString a = toString b) : a = b := by
  have hlist := congrArg String.toList h
  rw [toString_toList, toString_toList] at hlist
  have hrepr : ∀ m n : ℕ, m.repr.toList = n.repr.toList → m = n := by
    intro m n hmn
    simp only [Nat.repr_eq_ofList_toDigits, String.toList_ofList] at hmn
    simpa using congrArg (fun l => Nat.ofDigitChars 10 l 0) hmn
  split_ifs at hlist with ha hb hb
  · have := hrepr _ _ hlist
    omega
  · exact absurd (by rw [← List.nil_append a.natAbs.repr.toList, hlist]; simp)
      (sign_not_mem_repr a.natAbs)
  · exact absurd (by rw [← List.nil_append b.natAbs.repr.toList, ← hlist]; simp)
      (sign_not_mem_repr b.natAbs)
  · have := hrepr _ _ (List.append_cancel_left hlist)
    omega

/-! ### `i32_to_dec_str` -/

/-- **`i32_to_dec_str` is right above `INT_MIN`.** -/
theorem i32ToDecStr_eq {val : Int32} (h : val.toInt ≠ -2 ^ 31) :
    i32ToDecStr val = ascii (toString val.toInt) := by
  have hlt := val.toInt_lt
  have hge := val.le_toInt
  rw [Int.toString_eq_repr, Int.repr_eq_if]
  unfold i32ToDecStr
  split_ifs with h0 hpos hpos
  · rw [h0]
    decide
  · omega
  · have hneg : ¬ val.toInt < 0 := by omega
    simp only [hneg, decide_false, Bool.false_eq_true, ite_false, List.append_nil]
    exact tempDigits_reverse (by omega) (by omega)
  · have hneg : val.toInt < 0 := by omega
    have hval : (-val).toInt = -val.toInt := by
      rw [Int32.toInt_neg]
      exact Int.bmod_eq_of_le (by omega) (by omega)
    simp only [hneg, decide_true, ite_true, hval, List.reverse_append]
    rw [tempDigits_reverse (by omega) (by omega), ascii_append]
    rfl

/-- `INT_MIN` is written as a sign alone. -/
theorem i32ToDecStr_min {val : Int32} (h : val.toInt = -2 ^ 31) : i32ToDecStr val = ascii "-" := by
  obtain rfl : val = Int32.minValue := Int32.toInt_inj.1 h
  decide

/-- **A 64-bit volume is written as itself exactly inside the 32-bit range**, `INT_MIN` left
out. -/
theorem decStr_toInt32_iff (v : Int64) :
    i32ToDecStr v.toInt32 = ascii (toString v.toInt) ↔ -2 ^ 31 < v.toInt ∧ v.toInt < 2 ^ 31 := by
  have hcut : v.toInt32.toInt = v.toInt.bmod (2 ^ 32) := Int64.toInt_toInt32 v
  have hlt := v.toInt32.toInt_lt
  have hge := v.toInt32.le_toInt
  constructor
  · intro h
    by_cases hmin : v.toInt32.toInt = -2 ^ 31
    · rw [i32ToDecStr_min hmin] at h
      exact absurd (ascii_injOn (forall_mem_of_all (by decide)) (toString_lt _) h).symm
        (toString_ne_sign _)
    · rw [i32ToDecStr_eq hmin] at h
      have := toString_injective (ascii_injOn (toString_lt _) (toString_lt _) h)
      omega
  · rintro ⟨h1, h2⟩
    have hval : v.toInt32.toInt = v.toInt := by
      rw [hcut]
      exact Int.bmod_eq_of_le (by omega) (by omega)
    rw [i32ToDecStr_eq (by omega), hval]

/-! ### The whole receipt -/

theorem u64ToHexStr_length (val : UInt64) : (u64ToHexStr val).length = 16 := by
  simp [u64ToHexStr]

theorem tempDigits_length_le (fuel val : ℕ) : (tempDigits fuel val).length ≤ fuel := by
  induction fuel generalizing val with
  | zero => simp [tempDigits]
  | succ fuel ih =>
      rw [tempDigits]
      split_ifs
      · simp
      · have := ih (val / 10)
        simp only [List.length_cons]
        omega

theorem i32ToDecStr_length_le (val : Int32) : (i32ToDecStr val).length ≤ 17 := by
  unfold i32ToDecStr
  split_ifs with h0
  · decide
  · simp only [List.length_reverse, List.length_append]
    have h1 := tempDigits_length_le 16 (if decide (val.toInt < 0) = true then -val else val).toInt.toNat
    have h2 : (if decide (val.toInt < 0) = true then ascii "-" else []).length ≤ 1 := by
      split_ifs <;> decide
    omega

theorem receiptContext_length_le (txHash : UInt64) (volume : Int32) :
    (receiptContext txHash volume).length ≤ 63 := by
  have h1 := i32ToDecStr_length_le volume
  have h2 : (ascii "TX: 0x").length = 6 := by decide
  have h3 : (ascii " | VOL: ").length = 8 := by decide
  simp only [receiptContext, List.length_append, u64ToHexStr_length, h2, h3]
  omega

theorem nul_not_mem_tempDigits (fuel val : ℕ) : (0 : UInt8) ∉ tempDigits fuel val := by
  have hdigit : ∀ d < 10, UInt8.ofNat (d + 48) ≠ 0 := by decide
  induction fuel generalizing val with
  | zero => simp [tempDigits]
  | succ fuel ih =>
      rw [tempDigits]
      split_ifs
      · simp
      · rw [List.mem_cons, not_or]
        exact ⟨(hdigit _ (Nat.mod_lt _ (by decide))).symm, ih _⟩

theorem nul_not_mem_receiptContext (txHash : UInt64) (volume : Int32) :
    (0 : UInt8) ∉ receiptContext txHash volume := by
  have hhex : ∀ d < 16, hexChars.getD d 0 ≠ 0 := by decide
  have h1 : (0 : UInt8) ∉ u64ToHexStr txHash := by
    simp only [u64ToHexStr, List.mem_map, not_exists, not_and]
    intro i _
    exact hhex _ (Nat.mod_lt _ (by decide))
  have h2 : (0 : UInt8) ∉ i32ToDecStr volume := by
    unfold i32ToDecStr
    split_ifs
    · decide
    · rw [List.mem_reverse, List.mem_append, not_or]
      refine ⟨nul_not_mem_tempDigits _ _, ?_⟩
      split_ifs <;> decide
  have h3 : (0 : UInt8) ∉ ascii "TX: 0x" := by decide
  have h4 : (0 : UInt8) ∉ ascii " | VOL: " := by decide
  simp only [receiptContext, List.mem_append]
  tauto

/-- The volume text of a receipt: what follows `TX: 0x`, the sixteen digits and ` | VOL: `. -/
def volumeText (context : List UInt8) : List UInt8 := context.drop 30

theorem volumeText_receiptContext (txHash : UInt64) (volume : Int32) :
    volumeText (receiptContext txHash volume) = i32ToDecStr volume := by
  have h1 : (ascii "TX: 0x" ++ u64ToHexStr txHash ++ ascii " | VOL: ").length = 30 := by
    simp only [List.length_append, u64ToHexStr_length]
    decide
  rw [volumeText, receiptContext, List.drop_left' h1]

theorem eventRecord_text (type : WatcherEventType) (pid : UInt32) (src : Buf) (timer : UInt64)
    (old : WatcherEvent) :
    (eventRecord type pid (some src) timer old).text =
      CMemory.text (copyString src 63 old.context) 64 := rfl

/-- **The slot holds the whole receipt.** -/
theorem commit_text (txHash : UInt64) (volume : Int32) (timer : UInt64) (w : WatcherState) :
    ((watcherCommitLedger txHash volume timer w).events w.head).text
      = receiptContext txHash volume := by
  have hslot : (watcherCommitLedger txHash volume timer w).events w.head
      = eventRecord .ledgerCommit 0 (some (cString (receiptContext txHash volume))) timer
          (w.events w.head) := by
    rw [watcherCommitLedger, watcherLogEvent_events, Function.update_self]
  have hlen := receiptContext_length_le txHash volume
  have htext : CMemory.text (cString (receiptContext txHash volume)) 63
      = receiptContext txHash volume :=
    text_put (nul_not_mem_receiptContext txHash volume) hlen
  rw [hslot, eventRecord_text, copyString, htext]
  exact text_put (nul_not_mem_receiptContext txHash volume) (by omega)

end Watcher
end AiOsExchange
