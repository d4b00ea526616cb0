/-
# Self-delimiting codes

A reader takes a value off the front of a list and leaves the rest, or fails.  It reads a code
(`Reads`) if it takes exactly the code, whatever follows, and fails on the code cut off anywhere.
Such readers are built from parts:

| rule | the code |
| --- | --- |
| `Reads.fixed` | a fixed number of symbols |
| `Reads.tagged` | a symbol that says which reader goes on |
| `Reads.bind` | one code behind the other |

A reader of the whole input (`readAll`) then takes the code and nothing longer or shorter.
-/

import Mathlib.Algebra.Order.Ring.Int

namespace Codecs

universe u

variable {β ε α γ : Type u}

/-- A reader of lists. -/
abbrev ListReader (β ε α : Type u) := StateT (List β) (Except ε) α

/-- `p` reads `code` as `a`. -/
structure Reads (p : ListReader β ε α) (code : List β) (a : α) : Prop where
  whole : ∀ rest, p.run (code ++ rest) = .ok (a, rest)
  cut : ∀ n < code.length, ∃ e, p.run (code.take n) = .error e

variable {p : ListReader β ε α} {q : α → ListReader β ε γ} {code code' : List β} {a : α} {b : γ}

theorem Reads.bind (hp : Reads p code a) (hq : Reads (q a) code' b) :
    Reads (p >>= q) (code ++ code') b where
  whole rest := by
    rw [List.append_assoc, StateT.run_bind, hp.whole]
    exact hq.whole rest
  cut n hn := by
    rw [StateT.run_bind, List.take_append]
    rcases Nat.lt_or_ge n code.length with hlt | hge
    · obtain ⟨e, he⟩ := hp.cut n hlt
      rw [Nat.sub_eq_zero_of_le hlt.le, List.take_zero, List.append_nil, he]
      exact ⟨e, rfl⟩
    · rw [List.length_append] at hn
      obtain ⟨e, he⟩ := hq.cut (n - code.length) (by omega)
      rw [List.take_of_length_le hge, hp.whole]
      exact ⟨e, he⟩

/-- A function of the value. -/
theorem Reads.map (hp : Reads p code a) (f : α → γ) : Reads (f <$> p) code (f a) where
  whole rest := by rw [StateT.run_map, hp.whole]; rfl
  cut n hn := by
    obtain ⟨e, he⟩ := hp.cut n hn
    exact ⟨e, by rw [StateT.run_map, he]; rfl⟩

/-- A first symbol says which reader goes on. -/
theorem Reads.tagged {r : ListReader β ε α} {t : β} (hnil : ∃ e, r.run [] = .error e)
    (hcons : ∀ rest, r.run (t :: rest) = p.run rest) (hp : Reads p code a) :
    Reads r (t :: code) a where
  whole rest := by rw [List.cons_append, hcons, hp.whole]
  cut n hn := by
    cases n with
    | zero => exact hnil
    | succ n =>
        rw [List.take_succ_cons, hcons]
        exact hp.cut n (Nat.lt_of_succ_lt_succ hn)

/-- A fixed number of symbols. -/
theorem Reads.fixed {k : ℕ} {f : List β → α} {e : ε} (hlen : code.length = k)
    (hrun : ∀ rest, p.run rest =
      if rest.length < k then .error e else .ok (f (rest.take k), rest.drop k)) :
    Reads p code (f code) where
  whole rest := by
    rw [hrun, List.length_append, if_neg (by omega), List.take_left' hlen, List.drop_left' hlen]
  cut n hn := by
    rw [hrun, List.length_take, if_pos (by omega)]
    exact ⟨e, rfl⟩

/-! ### The whole input -/

/-- Read a value that takes the whole input. -/
def readAll (trailing : ε) (p : ListReader β ε α) (input : List β) : Except ε α := do
  let (a, rest) ← p.run input
  if rest.isEmpty then .ok a else .error trailing

theorem Reads.readAll_whole (hp : Reads p code a) (trailing : ε) :
    readAll trailing p code = .ok a := by
  have hrun := hp.whole []
  rw [List.append_nil] at hrun
  rw [readAll, hrun]
  rfl

/-- **A longer input is rejected.** -/
theorem Reads.readAll_longer (hp : Reads p code a) (trailing : ε) (b : β) (rest : List β) :
    readAll trailing p (code ++ b :: rest) = .error trailing := by
  rw [readAll, hp.whole]
  rfl

/-- **A shorter input is rejected.** -/
theorem Reads.readAll_cut (hp : Reads p code a) (trailing : ε) {n : ℕ} (hn : n < code.length) :
    ∃ e, readAll trailing p (code.take n) = .error e := by
  obtain ⟨e, he⟩ := hp.cut n hn
  exact ⟨e, by rw [readAll, he]; rfl⟩

end Codecs
