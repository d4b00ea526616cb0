/-
# Buffers, strings and little-endian numbers of C

A buffer is the memory from an address on, `ℕ → UInt8`, so that reading past the end of an
array is reading what lies behind it rather than an error.  Bytes are read with `bytesAt` and
stored with `put`; the two laws are that a range reads back what was put there
(`bytesAt_put_self`) and that ranges apart do not touch (`bytesAt_put_of_disjoint`).

A string is what precedes the first NUL.  `strnlen b n` is where the loop
`while (b[i] != '\0' && i < n) i++` stops, `text b n` is what it has passed, and `copyString`
is the loop that copies as it goes and terminates the copy.  Numbers of 2 and 4 bytes are
stored least significant byte first.
-/

import Mathlib.Algebra.Order.Ring.Int
import Mathlib.Data.List.Basic
import Mathlib.Data.List.TakeWhile
import Mathlib.Logic.Function.Basic
import Mathlib.Data.Nat.Basic

namespace CMemory

/-- Memory from an address on. -/
abbrev Buf := ℕ → UInt8

/-- The bytes of an ASCII literal. -/
def ascii (s : String) : List UInt8 := s.toList.map fun c => UInt8.ofNat c.toNat

/-- A property of the members of a list is decided along the list. -/
theorem forall_mem_of_all {α : Type*} {p : α → Prop} [DecidablePred p] {l : List α}
    (h : l.all (fun a => decide (p a)) = true) : ∀ a ∈ l, p a :=
  fun a ha => of_decide_eq_true (List.all_eq_true.1 h a ha)

/-- The `n` bytes from offset `o` on. -/
def bytesAt (b : Buf) (o n : ℕ) : List UInt8 := (List.range n).map fun k => b (o + k)

/-- Store the bytes `l` at offset `o`. -/
def put (b : Buf) (o : ℕ) (l : List UInt8) : Buf := fun k =>
  if o ≤ k then (l[k - o]?).getD (b k) else b k

@[simp] theorem bytesAt_length (b : Buf) (o n : ℕ) : (bytesAt b o n).length = n := by
  simp [bytesAt]

@[simp] theorem bytesAt_zero (b : Buf) (o : ℕ) : bytesAt b o 0 = [] := rfl

theorem bytesAt_add (b : Buf) (o m n : ℕ) :
    bytesAt b o (m + n) = bytesAt b o m ++ bytesAt b (o + m) n := by
  simp [bytesAt, List.range_add, Nat.add_assoc]

theorem bytesAt_take (b : Buf) (o : ℕ) {m n : ℕ} (h : m ≤ n) :
    (bytesAt b o n).take m = bytesAt b o m := by
  obtain ⟨k, rfl⟩ := Nat.exists_eq_add_of_le h
  rw [bytesAt_add, List.take_left' (by simp)]

/-- Ranges of buffers that agree are equal. -/
theorem bytesAt_congr {b b' : Buf} {o n : ℕ} (h : ∀ k, k < n → b (o + k) = b' (o + k)) :
    bytesAt b o n = bytesAt b' o n := by
  apply List.map_congr_left
  intro k hk
  exact h k (List.mem_range.1 hk)

theorem put_apply {b : Buf} {o i : ℕ} {l : List UInt8} (h : i < l.length) :
    put b o l (o + i) = l[i] := by
  simp [put, h]

theorem put_apply_zero {b : Buf} {i : ℕ} {l : List UInt8} (h : i < l.length) :
    put b 0 l i = l[i] := by
  simp [put, h]

/-- The first byte of what was put. -/
theorem put_cons_self (b : Buf) (o : ℕ) (c : UInt8) (l : List UInt8) : put b o (c :: l) o = c := by
  simp [put]

theorem put_of_lt {b : Buf} {o k : ℕ} {l : List UInt8} (h : k < o) : put b o l k = b k := by
  simp [put, Nat.not_le.2 h]

theorem put_of_ge {b : Buf} {o k : ℕ} {l : List UInt8} (h : o + l.length ≤ k) :
    put b o l k = b k := by
  rw [put, if_pos (by omega), List.getElem?_eq_none (by omega), Option.getD_none]

@[simp] theorem put_nil (b : Buf) (o : ℕ) : put b o [] = b := by
  funext k
  simp [put]

/-- Bytes put behind bytes are put with them. -/
theorem put_put_append (b : Buf) (o : ℕ) (l l' : List UInt8) :
    put (put b o l) (o + l.length) l' = put b o (l ++ l') := by
  funext k
  rcases Nat.lt_or_ge k o with hk | hk
  · rw [put_of_lt hk, put_of_lt (by omega), put_of_lt hk]
  · obtain ⟨i, rfl⟩ := Nat.exists_eq_add_of_le hk
    rcases Nat.lt_or_ge i l.length with hi | hi
    · rw [put_of_lt (by omega), put_apply hi, put_apply (by simp; omega),
        List.getElem_append_left hi]
    · simp [put, hi, Nat.add_sub_add_left, List.getElem?_append_right hi]

/-- **A range reads back what was put there.** -/
theorem bytesAt_put_self (b : Buf) (o : ℕ) (l : List UInt8) :
    bytesAt (put b o l) o l.length = l := by
  apply List.ext_getElem (by simp)
  intro i h1 h2
  simp only [bytesAt, List.getElem_map, List.getElem_range]
  exact put_apply h2

/-- Putting back what is there changes nothing. -/
theorem put_bytesAt (b : Buf) (o n : ℕ) : put b o (bytesAt b o n) = b := by
  funext k
  rcases Nat.lt_or_ge k o with hk | hk
  · exact put_of_lt hk
  · obtain ⟨i, rfl⟩ := Nat.exists_eq_add_of_le hk
    rcases Nat.lt_or_ge i n with hi | hi
    · rw [put_apply (by simpa using hi)]
      simp [bytesAt]
    · exact put_of_ge (by simpa using hi)

/-- A part of what was put in a buffer. -/
theorem bytesAt_put_part (b : Buf) (o : ℕ) {l : List UInt8} {k n : ℕ} (h : k + n ≤ l.length) :
    bytesAt (put b o l) (o + k) n = (l.drop k).take n := by
  apply List.ext_getElem (by simp; omega)
  intro i h1 h2
  rw [bytesAt_length] at h1
  simp only [bytesAt, List.getElem_map, List.getElem_range, List.getElem_take, List.getElem_drop]
  rw [Nat.add_assoc]
  exact put_apply (by omega)

/-- **Ranges apart do not touch.** -/
theorem bytesAt_put_of_disjoint (b : Buf) {o p n : ℕ} {l : List UInt8}
    (h : p + n ≤ o ∨ o + l.length ≤ p) : bytesAt (put b o l) p n = bytesAt b p n := by
  apply bytesAt_congr
  intro k hk
  rcases h with h | h
  · exact put_of_lt (by omega)
  · exact put_of_ge (by omega)

/-! ### Strings -/

/-- Where `while (b[i] != '\0' && i < n) i++` stops. -/
def strnlen (b : Buf) (n : ℕ) : ℕ := ((List.range n).find? fun i => b i == 0).getD n

/-- What the loop of `strnlen` has passed: the string in `b`, cut at `n` bytes. -/
def text (b : Buf) (n : ℕ) : List UInt8 := bytesAt b 0 (strnlen b n)

/-- `while (src[i] != '\0' && i < n) { dst[i] = src[i]; i++; } dst[i] = '\0';` -/
def copyString (src : Buf) (n : ℕ) (dst : Buf) : Buf := put dst 0 (text src n ++ [0])

theorem strnlen_le (b : Buf) (n : ℕ) : strnlen b n ≤ n := by
  unfold strnlen
  cases h : (List.range n).find? fun i => b i == 0 with
  | none => simp
  | some i =>
      have := (List.find?_range_eq_some.1 h).2.1
      simp only [List.mem_range] at this
      simp only [Option.getD_some]
      omega

/-- The loop stops at the first NUL. -/
theorem strnlen_eq_of_nul {b : Buf} {n k : ℕ} (hk : k < n) (h0 : b k = 0)
    (hne : ∀ i, i < k → b i ≠ 0) : strnlen b n = k := by
  have h : (List.range n).find? (fun i => b i == 0) = some k :=
    List.find?_range_eq_some.2 ⟨by simp [h0], List.mem_range.2 hk, fun i hi => by simp [hne i hi]⟩
  rw [strnlen, h, Option.getD_some]

theorem ne_zero_of_lt_strnlen {b : Buf} {n i : ℕ} (h : i < strnlen b n) : b i ≠ 0 := by
  intro h0
  unfold strnlen at h
  cases hf : (List.range n).find? fun i => b i == 0 with
  | none =>
      rw [hf, Option.getD_none] at h
      have := List.find?_range_eq_none.1 hf i h
      simp [h0] at this
  | some k =>
      rw [hf, Option.getD_some] at h
      have := (List.find?_range_eq_some.1 hf).2.2 i h
      simp [h0] at this

theorem eq_zero_of_strnlen_lt {b : Buf} {n : ℕ} (h : strnlen b n < n) : b (strnlen b n) = 0 := by
  unfold strnlen at h ⊢
  cases hf : (List.range n).find? fun i => b i == 0 with
  | none =>
      rw [hf] at h
      simp at h
  | some k => simpa using (List.find?_range_eq_some.1 hf).1

/-- **The string is what precedes the first NUL.** -/
theorem text_eq_takeWhile (b : Buf) (n : ℕ) : text b n = (bytesAt b 0 n).takeWhile (· ≠ 0) := by
  have hsplit : bytesAt b 0 n = text b n ++ bytesAt b (strnlen b n) (n - strnlen b n) := by
    have := bytesAt_add b 0 (strnlen b n) (n - strnlen b n)
    rwa [Nat.add_sub_cancel' (strnlen_le b n), Nat.zero_add] at this
  have hne : ∀ c ∈ text b n, decide (c ≠ 0) = true := by
    intro c hc
    obtain ⟨i, hi, rfl⟩ := List.mem_map.1 hc
    simpa using ne_zero_of_lt_strnlen (List.mem_range.1 hi)
  rw [hsplit, List.takeWhile_append_of_pos hne]
  rcases Nat.lt_or_ge (strnlen b n) n with hlt | hge
  · obtain ⟨r, hr⟩ : ∃ r, n - strnlen b n = 1 + r := ⟨n - strnlen b n - 1, by omega⟩
    rw [hr, bytesAt_add]
    simp [bytesAt, eq_zero_of_strnlen_lt hlt]
  · simp [Nat.sub_eq_zero_of_le hge]

/-- **What is put in a buffer with a NUL is read back**, cut at `n` bytes and at its first NUL. -/
theorem text_put_takeWhile (b : Buf) (n : ℕ) (l : List UInt8) :
    text (put b 0 (l ++ [0])) n = (l.take n).takeWhile (· ≠ 0) := by
  have hself := bytesAt_put_self b 0 (l ++ [0])
  rw [List.length_append, List.length_singleton] at hself
  rw [text_eq_takeWhile]
  rcases Nat.lt_or_ge l.length n with hlt | hge
  · obtain ⟨r, rfl⟩ : ∃ r, n = l.length + 1 + r := ⟨n - l.length - 1, by omega⟩
    rw [bytesAt_add, hself, List.append_assoc, List.takeWhile_append,
      List.take_of_length_le (by omega)]
    split_ifs with h
    · rw [List.singleton_append, List.takeWhile_cons_of_neg (by simp), List.append_nil]
      exact ((List.takeWhile_sublist _).eq_of_length h).symm
    · rfl
  · have := congrArg (List.take n) hself
    rw [bytesAt_take _ _ (by omega), List.take_append_of_le_length hge] at this
    rw [this]

theorem takeWhile_ne_zero {l : List UInt8} (h0 : (0 : UInt8) ∉ l) : l.takeWhile (· ≠ 0) = l := by
  rw [List.takeWhile_eq_self_iff]
  intro c hc
  have : c ≠ 0 := fun h => h0 (h ▸ hc)
  simpa using this

/-- **A string put in a buffer with its NUL is read back**, if it has no NUL of its own. -/
theorem text_put {b : Buf} {n : ℕ} {l : List UInt8} (h0 : (0 : UInt8) ∉ l) (hl : l.length ≤ n) :
    text (put b 0 (l ++ [0])) n = l := by
  rw [text_put_takeWhile, List.take_of_length_le hl, takeWhile_ne_zero h0]

/-- What follows the NUL of a string is not read. -/
theorem text_put_append {b : Buf} {n : ℕ} {l : List UInt8} (h0 : (0 : UInt8) ∉ l)
    (hl : l.length < n) (rest : List UInt8) : text (put b 0 (l ++ 0 :: rest)) n = l := by
  obtain ⟨r, rfl⟩ : ∃ r, n = l.length + 1 + r := ⟨n - (l.length + 1), by omega⟩
  have hpart := @bytesAt_put_part b 0 (l ++ 0 :: rest) 0 (l.length + 1) (by simp)
  have htake : ((l ++ 0 :: rest).drop 0).take (l.length + 1) = l ++ [0] := by
    simp [List.take_append, List.take_of_length_le]
  rw [Nat.add_zero, htake] at hpart
  rw [text_eq_takeWhile, bytesAt_add, hpart, List.append_assoc, List.takeWhile_append,
    takeWhile_ne_zero h0]
  simp

theorem nul_not_mem_text (b : Buf) (n : ℕ) : (0 : UInt8) ∉ text b n := by
  intro h
  obtain ⟨i, hi, he⟩ := List.mem_map.1 h
  exact ne_zero_of_lt_strnlen (List.mem_range.1 hi) (by simpa using he)

theorem text_length_le (b : Buf) (n : ℕ) : (text b n).length ≤ n := by
  simpa [text] using strnlen_le b n

/-- **The copy reads as the original**, cut at `n` bytes. -/
@[simp] theorem text_copyString (src dst : Buf) (n : ℕ) :
    text (copyString src n dst) n = text src n :=
  text_put (nul_not_mem_text src n) (text_length_le src n)

/-- A string in memory, with nothing behind it. -/
def cString (l : List UInt8) : Buf := put (fun _ => 0) 0 (l ++ [0])

/-- Among zeros a string has its NUL already. -/
theorem put_zeros (l : List UInt8) : put (fun _ => 0) 0 l = cString l := by
  funext k
  rw [cString]
  rcases Nat.lt_trichotomy k l.length with hk | rfl | hk
  · rw [put_apply_zero hk, put_apply_zero (by simp; omega), List.getElem_append_left hk]
  · rw [put_of_ge (by omega), put_apply_zero (by simp), List.getElem_append_right (Nat.le_refl _)]
    simp
  · rw [put_of_ge (by omega), put_of_ge (by simp; omega)]

theorem bytesAt_cString (l : List UInt8) : bytesAt (cString l) 0 l.length = l := by
  rw [← put_zeros, bytesAt_put_self]

theorem text_cString {l : List UInt8} {n : ℕ} (h0 : (0 : UInt8) ∉ l) :
    text (cString l) n = l.take n := by
  rw [cString, text_put_takeWhile, takeWhile_ne_zero fun h => h0 (List.mem_of_mem_take h)]

/-! ### Little-endian numbers -/

/-- The number with the given bytes, least significant first. -/
def ofLE : List UInt8 → ℕ
  | [] => 0
  | b :: l => b.toNat + 256 * ofLE l

/-- The `w` lowest bytes of a number, least significant first. -/
def toLE : ℕ → ℕ → List UInt8
  | 0, _ => []
  | w + 1, n => UInt8.ofNat (n % 256) :: toLE w (n / 256)

@[simp] theorem toLE_length (w n : ℕ) : (toLE w n).length = w := by
  induction w generalizing n with
  | zero => rfl
  | succ w ih => simp [toLE, ih]

/-- Reading back the bytes of a number that fits them. -/
theorem ofLE_toLE {w n : ℕ} (h : n < 256 ^ w) : ofLE (toLE w n) = n := by
  induction w generalizing n with
  | zero => simp at h; simp [toLE, ofLE, h]
  | succ w ih =>
      have hdiv : n / 256 < 256 ^ w := by
        rw [Nat.pow_succ] at h
        omega
      have hmod : (UInt8.ofNat (n % 256)).toNat = n % 256 := by
        rw [UInt8.toNat_ofNat']
        exact Nat.mod_eq_of_lt (by simpa using Nat.mod_lt n (by decide))
      rw [toLE, ofLE, ih hdiv, hmod]
      omega

/-- The `uint16_t` at offset `o`. -/
def u16 (b : Buf) (o : ℕ) : ℕ := ofLE (bytesAt b o 2)

/-- The `uint32_t` at offset `o`. -/
def u32 (b : Buf) (o : ℕ) : ℕ := ofLE (bytesAt b o 4)

theorem ofLE_lt (l : List UInt8) : ofLE l < 256 ^ l.length := by
  induction l with
  | nil => exact Nat.one_pos
  | cons b l ih =>
      have hb := b.toNat_lt
      rw [ofLE, List.length_cons, Nat.pow_succ]
      omega

theorem u16_lt (b : Buf) (o : ℕ) : u16 b o < 2 ^ 16 := by
  simpa [u16] using ofLE_lt (bytesAt b o 2)

theorem u32_lt (b : Buf) (o : ℕ) : u32 b o < 2 ^ 32 := by
  simpa [u32] using ofLE_lt (bytesAt b o 4)

end CMemory
