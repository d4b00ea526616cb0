/-
# Rings and the numbers of their elements

A ring of `N` slots takes elements one after the other, element `i` in slot `i % N`.  The
counters such a ring keeps are numbers of elements reduced modulo `N`, and everything said
about them is easier to say of the unreduced numbers.  `Holds` relates the slots to the list
of all elements ever pushed: the last `N` of them are still there (`Holds.push`).  `walk` is
the loop that goes from one counter up to another, `while (cur != head) cur = (cur + 1) % N`;
from the number `c` to the number `n` it visits the slots of `c, c + 1, …, n - 1`, provided
fewer than `N` elements lie between (`walk_eq`).  With exactly `N` between them the counters
are equal and it visits nothing (`walk_self`).  `forward` is the loop that counts its rounds
instead, and reads a full ring as well (`Holds.forward_eq`).

Counters may be wider than the ring: reduced modulo a multiple `W` of `N`, they still tell the
slots (`mod_slot`), and how many elements lie between two of them as long as these are fewer
than `W` (`ahead_mod`).  `between` reads the slots from one counter up to another, and gives
back that part of the history (`Holds.between_eq`).

A queue in such a ring keeps the two counters and leaves one slot empty.  Taken as the list of what
is `between` them, it is a queue: an element enters at the end (`between_push`) and leaves at the
front (`between_pop`).
-/

import Mathlib.Algebra.Order.Ring.Int
import Mathlib.Data.List.Basic
import Mathlib.Data.List.Nodup
import Mathlib.Logic.Function.Basic

namespace Rings

variable {α : Type*} {N : ℕ}

/-- Numbers less than `N` apart fall into different slots. -/
theorem mod_ne_mod {i n : ℕ} (hi : i < n) (hn : n < i + N) : i % N ≠ n % N := by
  intro h
  have hN : 0 < N := by omega
  have h1 := Nat.div_add_mod i N
  have h2 := Nat.div_add_mod n N
  have hle : i / N ≤ n / N := Nat.div_le_div_right (Nat.le_of_lt hi)
  have heq : n / N = i / N := by
    by_contra hne
    have : N * (i / N) + N ≤ N * (n / N) := by
      rw [← Nat.mul_succ]
      exact Nat.mul_le_mul_left N (by omega)
    omega
  rw [heq] at h2
  omega

/-- The slots hold the last `N` elements of the history. -/
def Holds (N : ℕ) (slots : ℕ → α) (hist : List α) : Prop :=
  ∀ i a, hist[i]? = some a → hist.length ≤ i + N → slots (i % N) = a

/-- An empty history is held by any slots. -/
theorem Holds.nil (slots : ℕ → α) : Holds N slots [] := by
  intro i a h
  simp at h

/-- **Pushing keeps the last `N`.**  Writing the next slot adds the element to the history; the
slot it overwrites is that of the element `N` before it. -/
theorem Holds.push {slots : ℕ → α} {hist : List α} (h : Holds N slots hist) (a : α) :
    Holds N (Function.update slots (hist.length % N) a) (hist ++ [a]) := by
  intro i b hb hlen
  rw [List.length_append, List.length_singleton] at hlen
  rcases Nat.lt_trichotomy i hist.length with hi | rfl | hi
  · rw [List.getElem?_append_left hi] at hb
    rw [Function.update_of_ne (mod_ne_mod hi (by omega))]
    exact h i b hb (by omega)
  · rw [List.getElem?_concat_length] at hb
    rw [Function.update_self]
    exact Option.some.inj hb
  · rw [List.getElem?_eq_none (by simp; omega)] at hb
    simp at hb

/-- The slots visited by `while (cur != head) { …; cur = (cur + 1) % N; }`, at most `fuel` of
them. -/
def walk (N : ℕ) : ℕ → ℕ → ℕ → List ℕ
  | 0, _, _ => []
  | fuel + 1, cur, head => if cur = head then [] else cur :: walk N fuel ((cur + 1) % N) head

@[simp] theorem walk_self (fuel cur : ℕ) : walk N fuel cur cur = [] := by
  cases fuel <;> simp [walk]

/-- **The walk visits the elements between the counters**, in order and each once. -/
theorem walk_eq (k : ℕ) {fuel c : ℕ} (hk : k < N) (hfuel : k ≤ fuel) :
    walk N fuel (c % N) ((c + k) % N) = (List.range' c k).map (· % N) := by
  induction k generalizing fuel c with
  | zero => simp
  | succ k ih =>
      obtain ⟨fuel, rfl⟩ : ∃ f, fuel = f + 1 := ⟨fuel - 1, by omega⟩
      have hne : c % N ≠ (c + (k + 1)) % N := mod_ne_mod (by omega) (by omega)
      have hrest : walk N fuel ((c + 1) % N) ((c + 1 + k) % N) = (List.range' (c + 1) k).map (· % N) :=
        ih (by omega) (by omega)
      rw [show c + 1 + k = c + (k + 1) by omega] at hrest
      rw [walk, if_neg hne, Nat.mod_add_mod, hrest, List.range'_succ, List.map_cons]

/-- The walk visits no slot twice. -/
theorem walk_nodup {cur head fuel : ℕ} (hcur : cur < N) (hhead : head < N) (hfuel : N ≤ fuel) :
    (walk N fuel cur head).Nodup := by
  have hk : (head + N - cur) % N < N := Nat.mod_lt _ (by omega)
  have hend : (cur + (head + N - cur) % N) % N = head := by
    rw [Nat.add_mod_mod, show cur + (head + N - cur) = head + N by omega, Nat.add_mod_right,
      Nat.mod_eq_of_lt hhead]
  have hwalk := walk_eq (c := cur) _ hk (Nat.le_trans (Nat.le_of_lt hk) hfuel)
  rw [Nat.mod_eq_of_lt hcur, hend] at hwalk
  rw [hwalk]
  refine List.Nodup.map_on (fun i hi j hj hij => ?_) List.nodup_range'
  rw [List.mem_range'_1] at hi hj
  rcases Nat.lt_trichotomy i j with hlt | heq | hgt
  · exact absurd hij (mod_ne_mod hlt (by omega))
  · exact heq
  · exact absurd hij.symm (mod_ne_mod hgt (by omega))

/-- The slots visited by `n` rounds of `{ …; cur = (cur + 1) % N; }`. -/
def forward (N : ℕ) : ℕ → ℕ → List ℕ
  | 0, _ => []
  | n + 1, cur => cur :: forward N n ((cur + 1) % N)

theorem forward_eq (n c : ℕ) : forward N n (c % N) = (List.range' c n).map (· % N) := by
  induction n generalizing c with
  | zero => rfl
  | succ n ih => rw [forward, Nat.mod_add_mod, ih, List.range'_succ, List.map_cons]

/-- **Counting its elements, a ring is read back whole**: from number `c` on, not more than `N`
elements ago, up to the last. -/
theorem Holds.forward_eq {slots : ℕ → α} {hist : List α} (h : Holds N slots hist) {c : ℕ}
    (hlast : hist.length ≤ c + N) :
    (forward N (hist.length - c) (c % N)).map slots = hist.drop c := by
  rw [Rings.forward_eq, List.map_map]
  apply List.ext_getElem?
  intro j
  rw [List.getElem?_map, List.getElem?_drop]
  rcases Nat.lt_or_ge j (hist.length - c) with hj | hj
  · have hget := List.getElem?_eq_getElem (show c + j < hist.length by omega)
    rw [List.getElem?_range' hj, Option.map_some, hget, Function.comp_apply, Nat.one_mul,
      h (c + j) _ hget (by omega)]
  · rw [List.getElem?_eq_none (by simpa using hj), List.getElem?_eq_none (by omega)]
    rfl

/-! ### Wide counters -/

/-- How far the counter `a` is ahead of the counter `b`. -/
def ahead (W a b : ℕ) : ℕ := (a + W - b) % W

theorem ahead_mod {W A B : ℕ} (hle : B ≤ A) (hlt : A < B + W) :
    ahead W (A % W) (B % W) = A - B := by
  obtain ⟨d, rfl⟩ := Nat.exists_eq_add_of_le hle
  have hd : d < W := by omega
  have hB : B % W < W := Nat.mod_lt _ (by omega)
  rw [ahead, Nat.add_sub_cancel_left, Nat.add_mod, Nat.mod_eq_of_lt hd]
  rcases Nat.lt_or_ge (B % W + d) W with hw | hw
  · rw [Nat.mod_eq_of_lt hw, show B % W + d + W - B % W = d + W by omega, Nat.add_mod_right,
      Nat.mod_eq_of_lt hd]
  · rw [Nat.mod_eq_sub_mod hw, Nat.mod_eq_of_lt (show B % W + d - W < W by omega),
      show B % W + d - W + W - B % W = d by omega, Nat.mod_eq_of_lt hd]

/-- A counter tells the slot. -/
theorem mod_slot {W : ℕ} (hN : N ∣ W) (B j : ℕ) : (B % W + j) % W % N = (B + j) % N := by
  rw [Nat.mod_add_mod, Nat.mod_mod_of_dvd _ hN]

/-- The contents of the slots from the counter `b` up to the counter `a`. -/
def between (N W : ℕ) (slots : ℕ → α) (b a : ℕ) : List α :=
  (List.range (ahead W a b)).map fun j => slots ((b + j) % W % N)

/-- **Between two counters lies that part of the history.** -/
theorem Holds.between_eq {W B : ℕ} {slots : ℕ → α} {hist : List α} (h : Holds N slots hist)
    (hN : N ∣ W) (hle : B ≤ hist.length) (hlast : hist.length ≤ B + N)
    (hlt : hist.length < B + W) :
    between N W slots (B % W) (hist.length % W) = hist.drop B := by
  rw [between, ahead_mod hle hlt]
  apply List.ext_getElem?
  intro j
  rw [List.getElem?_map, List.getElem?_drop]
  rcases Nat.lt_or_ge j (hist.length - B) with hj | hj
  · have hget := List.getElem?_eq_getElem (show B + j < hist.length by omega)
    rw [List.getElem?_range hj, Option.map_some, mod_slot hN, hget,
      h (B + j) _ hget (by omega)]
  · rw [List.getElem?_eq_none (by simpa using hj), List.getElem?_eq_none (by omega)]
    rfl

/-- The next counter. -/
theorem succ_mod (W n : ℕ) : (n % W + 1) % W = (n + 1) % W := Nat.mod_add_mod n W 1

/-! ### Queues -/

@[simp] theorem length_between (W : ℕ) (slots : ℕ → α) (b a : ℕ) :
    (between N W slots b a).length = ahead W a b := by
  rw [between, List.length_map, List.length_range]

@[simp] theorem between_self (W : ℕ) (slots : ℕ → α) (b : ℕ) : between N W slots b b = [] := by
  rw [between, ahead, Nat.add_sub_cancel_left, Nat.mod_self, List.range_zero, List.map_nil]

/-- Between a counter and the next one lies one element. -/
theorem between_next {W : ℕ} (slots : ℕ → α) {b : ℕ} (hb : b < W) (hW : 1 < W) :
    between N W slots b ((b + 1) % W) = [slots (b % N)] := by
  have hahead : ahead W ((b + 1) % W) (b % W) = b + 1 - b := ahead_mod (by omega) (by omega)
  rw [Nat.mod_eq_of_lt hb, Nat.add_sub_cancel_left] at hahead
  rw [between, hahead, List.range_one, List.map_singleton, Nat.add_zero, Nat.mod_eq_of_lt hb]

/-- How far a counter is ahead of another, in the ring. -/
theorem ahead_eq {a b : ℕ} (ha : a < N) (hb : b < N) :
    ahead N a b = if b ≤ a then a - b else a + N - b := by
  rw [ahead]
  split_ifs with h
  · rw [show a + N - b = a - b + N by omega, Nat.add_mod_right, Nat.mod_eq_of_lt (by omega)]
  · exact Nat.mod_eq_of_lt (by omega)

/-- The next counter, in the ring. -/
theorem next_eq {a : ℕ} (ha : a < N) : (a + 1) % N = if a + 1 = N then 0 else a + 1 := by
  split_ifs with h
  · rw [h, Nat.mod_self]
  · exact Nat.mod_eq_of_lt (by omega)

/-- **An element enters at the end**, unless the two counters would meet. -/
theorem between_push {slots : ℕ → α} {a b : ℕ} (x : α) (ha : a < N) (hb : b < N)
    (hfree : (a + 1) % N ≠ b) :
    between N N (Function.update slots a x) b ((a + 1) % N) = between N N slots b a ++ [x] := by
  have hnext := next_eq ha
  have hlt : (a + 1) % N < N := Nat.mod_lt _ (by omega)
  have hahead : ahead N ((a + 1) % N) b = ahead N a b + 1 := by
    rw [ahead_eq hlt hb, ahead_eq ha hb]
    split_ifs at hnext ⊢ <;> omega
  have hlast : (b + ahead N a b) % N = a := by
    rw [ahead_eq ha hb]
    split_ifs with h
    · rw [Nat.add_sub_cancel' h, Nat.mod_eq_of_lt ha]
    · rw [show b + (a + N - b) = a + N by omega, Nat.add_mod_right, Nat.mod_eq_of_lt ha]
  rw [between, hahead, List.range_succ, List.map_append, List.map_singleton, Nat.mod_mod, hlast,
    Function.update_self, between]
  congr 1
  refine List.map_congr_left fun j hj => Function.update_of_ne ?_ _ _
  have hj' := List.mem_range.1 hj
  rw [Nat.mod_mod, ← hlast]
  refine mod_ne_mod (by omega) ?_
  have : ahead N a b < N := Nat.mod_lt _ (by omega)
  omega

/-- **An element leaves at the front**, where there is one. -/
theorem between_pop {slots : ℕ → α} {a b : ℕ} (ha : a < N) (hb : b < N) (hne : b ≠ a) :
    between N N slots b a = slots b :: between N N slots ((b + 1) % N) a := by
  have hnext := next_eq hb
  have hlt : (b + 1) % N < N := Nat.mod_lt _ (by omega)
  have hahead : ahead N a b = ahead N a ((b + 1) % N) + 1 := by
    rw [ahead_eq ha hlt, ahead_eq ha hb]
    split_ifs at hnext ⊢ <;> omega
  rw [between, hahead, List.range_succ_eq_map, List.map_cons, List.map_map, between]
  congr 1
  · rw [Nat.add_zero, Nat.mod_mod, Nat.mod_eq_of_lt hb]
  · refine List.map_congr_left fun j _ => congrArg slots ?_
    simp only [Nat.mod_mod, Nat.mod_add_mod]
    congr 1
    omega

end Rings
