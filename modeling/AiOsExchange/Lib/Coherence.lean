/-
# Memory shared with a device that does not see the cache

What a processor writes stays in its cache until the line is cleaned.  A device that reads memory
when it is told to therefore sees a write only if the line was cleaned in between.  A trace lists
the writes, the cleanings and the notification; `Covered` says that every write to a byte the
device looks at is cleaned, later and in time.

What a cleaning does is a parameter: `lines` gives the first addresses of the lines it cleans, of
`L` bytes each.

A driver `publishes` in a fixed order: it writes its data, cleans some of it, then writes an index
the device starts from, and cleans that.  Then the order is right, and all that is left is whether
the ranges that are cleaned have the bytes that were written (`covered_publishes_iff`).
-/

import Mathlib.Data.List.Basic

namespace Coherence

/-- Some bytes of memory. -/
structure Region where
  addr : ℕ
  len : ℕ

/-- A byte of the region. -/
def Region.Has (r : Region) (b : ℕ) : Prop := r.addr ≤ b ∧ b < r.addr + r.len

/-- What the processor does that the device can notice. -/
inductive Access
  | write (r : Region)
  | clean (r : Region)
  | notify

variable (L : ℕ) (lines : Region → List ℕ)

/-- The line of the byte is cleaned. -/
def Cleans (r : Region) (b : ℕ) : Prop := b / L * L ∈ lines r

/-- The line of the byte is cleaned before the device is told. -/
def CleanedIn (b : ℕ) : List Access → Prop
  | [] => False
  | .write _ :: t => CleanedIn b t
  | .clean r :: t => Cleans L lines r b ∨ CleanedIn b t
  | .notify :: _ => False

/-- **Every write to a shared byte is cleaned afterwards**, before the device is told. -/
def Covered (Shared : ℕ → Prop) : List Access → Prop
  | [] => True
  | .write r :: t => (∀ b, r.Has b → Shared b → CleanedIn L lines b t) ∧ Covered Shared t
  | .clean _ :: t => Covered Shared t
  | .notify :: t => Covered Shared t

/-- Data written, data cleaned, the index written and cleaned, the device told. -/
def publishes (written cleaned : List Region) (index : Region) : List Access :=
  written.map .write ++ (cleaned.map .clean ++ [.write index, .clean index, .notify])

variable {L lines} {Shared : ℕ → Prop} {b : ℕ} {t : List Access} {index : Region}

theorem clean_mem_publishes {written cleaned : List Region} {r : Region} :
    .clean r ∈ publishes written cleaned index ↔ r ∈ cleaned ∨ r = index := by
  simp [publishes]

theorem cleanedIn_writes (written : List Region) :
    CleanedIn L lines b (written.map .write ++ t) ↔ CleanedIn L lines b t := by
  induction written with
  | nil => rfl
  | cons r written ih => exact ih

theorem cleanedIn_cleans (cleaned : List Region) :
    CleanedIn L lines b (cleaned.map .clean ++ t) ↔
      (∃ r ∈ cleaned, Cleans L lines r b) ∨ CleanedIn L lines b t := by
  induction cleaned with
  | nil => simp
  | cons r cleaned ih =>
      rw [List.map_cons, List.cons_append, CleanedIn, ih, List.exists_mem_cons_iff, or_assoc]

theorem covered_cleans (cleaned : List Region) :
    Covered L lines Shared (cleaned.map .clean ++ t) ↔ Covered L lines Shared t := by
  induction cleaned with
  | nil => rfl
  | cons r cleaned ih => exact ih

theorem covered_writes (written : List Region) :
    Covered L lines Shared (written.map .write ++ t) ↔
      (∀ r ∈ written, ∀ b, r.Has b → Shared b → CleanedIn L lines b t) ∧
        Covered L lines Shared t := by
  induction written with
  | nil => simp
  | cons r written ih =>
      rw [List.map_cons, List.cons_append, Covered, ih, List.forall_mem_cons, and_assoc]
      simp only [cleanedIn_writes]

/-- **In this order, the ranges decide.** -/
theorem covered_publishes_iff (written cleaned : List Region) :
    Covered L lines Shared (publishes written cleaned index) ↔
      (∀ r ∈ written, ∀ b, r.Has b → Shared b →
        (∃ c ∈ cleaned, Cleans L lines c b) ∨ Cleans L lines index b) ∧
        ∀ b, index.Has b → Shared b → Cleans L lines index b := by
  rw [publishes, covered_writes, covered_cleans]
  simp only [cleanedIn_cleans, CleanedIn, Covered, or_false, and_true]

end Coherence
