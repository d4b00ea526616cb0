/-
# Hashes of the FNV-1a kind

Such a hash takes the words of its input one after the other, and for each of them does an
exclusive or and a multiplication by a fixed odd prime, modulo `2^64`.  Where the prime has an
inverse, neither operation loses anything: the hash before a word is known from the hash after
it (`absorb_inj_hash`), and so is the word (`absorb_inj_word`).  Two inputs that differ in one
place therefore have different hashes, whatever comes before and after it (`hash_inj_at`).
-/

import Mathlib.Init

namespace Fnv

/-- One word, taken into the hash. -/
def absorb (prime hash word : UInt64) : UInt64 := (hash ^^^ word) * prime

/-- The hash of a list of words, from `basis` on. -/
def hash (prime basis : UInt64) (words : List UInt64) : UInt64 :=
  words.foldl (absorb prime) basis

section
variable {prime inverse : UInt64} (hinv : prime * inverse = 1)
include hinv

/-- Multiplication by an invertible factor loses nothing. -/
theorem mul_prime_inj {a b : UInt64} : a * prime = b * prime ↔ a = b := by
  constructor
  · intro h
    calc a = a * prime * inverse := by rw [UInt64.mul_assoc, hinv, UInt64.mul_one]
      _ = b * prime * inverse := by rw [h]
      _ = b := by rw [UInt64.mul_assoc, hinv, UInt64.mul_one]
  · rintro rfl
    rfl

theorem absorb_inj_word {h a b : UInt64} : absorb prime h a = absorb prime h b ↔ a = b := by
  rw [absorb, absorb, mul_prime_inj hinv, UInt64.xor_right_inj]

theorem absorb_inj_hash {g h a : UInt64} : absorb prime g a = absorb prime h a ↔ g = h := by
  rw [absorb, absorb, mul_prime_inj hinv, UInt64.xor_left_inj]

/-- The words that follow keep two hashes apart. -/
theorem hash_inj_basis {g h : UInt64} (words : List UInt64) :
    hash prime g words = hash prime h words ↔ g = h := by
  induction words generalizing g h with
  | nil => rfl
  | cons a words ih => exact ih.trans (absorb_inj_hash hinv)

/-- **Inputs that differ in one place have different hashes.** -/
theorem hash_inj_at {basis a b : UInt64} (before after : List UInt64) :
    hash prime basis (before ++ a :: after) = hash prime basis (before ++ b :: after) ↔ a = b := by
  rw [hash, hash, List.foldl_append, List.foldl_append, List.foldl_cons, List.foldl_cons]
  exact (hash_inj_basis hinv after).trans (absorb_inj_word hinv)

end

end Fnv
