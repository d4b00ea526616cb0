/-
# Chains along a partial function

A table that gives some of its keys a successor holds linked lists: from a key one follows the
successors to a key that has none.  `Chain next a l` says that `l` are the keys passed, `a`
first.  A chain is determined by where it starts (`Chain.unique`), so it never comes back to a
key (`Chain.nodup`), and it depends on the table at its own keys alone (`Chain.congr`).

Not every key has a chain.  `path next a` goes on for as long as there are successors, and where
it comes back to a key (`Cyclic`) it goes on forever.  Through finitely many keys, one of the two
happens: it ends, or it comes back (`cyclic_of_path`).
-/

import Mathlib.Algebra.Order.Ring.Int
import Mathlib.Data.Finset.Card
import Mathlib.Data.List.Nodup
import Mathlib.Data.List.Perm.Subperm

namespace Chains

universe u

variable {α : Type u} {next next' : α → Option α} {a : α} {l l' : List α}

/-- `l` are the keys from `a` along `next`, up to one without a successor. -/
inductive Chain (next : α → Option α) : α → List α → Prop
  | last {a : α} (h : next a = none) : Chain next a [a]
  | step {a b : α} {l : List α} (h : next a = some b) (t : Chain next b l) : Chain next a (a :: l)

namespace Chain

theorem ne_nil (h : Chain next a l) : l ≠ [] := by
  cases h <;> nofun

theorem length_pos (h : Chain next a l) : 0 < l.length := List.length_pos_of_ne_nil h.ne_nil

/-- A chain begins where it starts. -/
theorem getElem?_zero (h : Chain next a l) : l[0]? = some a := by
  cases h <;> rfl

theorem mem_start (h : Chain next a l) : a ∈ l := by
  cases h <;> simp

/-- **A chain is determined by where it starts.** -/
theorem unique (h : Chain next a l) (h' : Chain next a l') : l = l' := by
  induction h generalizing l' with
  | last hn =>
      cases h' with
      | last _ => rfl
      | step hs _ => simp [hn] at hs
  | step hs _ ih =>
      cases h' with
      | last hn => simp [hs] at hn
      | step hs' t' =>
          obtain rfl := Option.some.inj (hs.symm.trans hs')
          rw [ih t']

/-- From every key of a chain there is a chain that is no longer. -/
theorem of_mem {b : α} (h : Chain next a l) (hb : b ∈ l) :
    ∃ l', Chain next b l' ∧ l'.length ≤ l.length := by
  induction h with
  | last hn =>
      obtain rfl := List.mem_singleton.1 hb
      exact ⟨_, .last hn, Nat.le_refl _⟩
  | step hs t ih =>
      rcases List.mem_cons.1 hb with rfl | hb
      · exact ⟨_, .step hs t, Nat.le_refl _⟩
      · obtain ⟨l', h', hle⟩ := ih hb
        exact ⟨l', h', Nat.le_succ_of_le hle⟩

/-- **A chain has no key twice.** -/
theorem nodup (h : Chain next a l) : l.Nodup := by
  induction h with
  | last _ => exact List.nodup_singleton _
  | step hs t ih =>
      refine List.nodup_cons.2 ⟨fun ha => ?_, ih⟩
      obtain ⟨l', h', hle⟩ := t.of_mem ha
      rw [← (step hs t).unique h', List.length_cons] at hle
      omega

/-- A chain through the keys of a list is no longer than it. -/
theorem length_le (h : Chain next a l) (hsub : l ⊆ l') : l.length ≤ l'.length :=
  (List.subperm_of_subset h.nodup hsub).length_le

/-- **A chain depends on the table at its own keys alone.** -/
theorem congr (h : Chain next a l) (heq : ∀ b ∈ l, next' b = next b) : Chain next' a l := by
  induction h with
  | last hn => exact .last ((heq _ (by simp)).trans hn)
  | step hs t ih =>
      exact .step ((heq _ (by simp)).trans hs) (ih fun b hb => heq b (List.mem_cons_of_mem _ hb))

end Chain

/-! ### Paths that need not end -/

/-- The key `k` steps from `a`. -/
def path (next : α → Option α) (a : α) : ℕ → Option α
  | 0 => some a
  | k + 1 => (path next a k).bind next

/-- From `a` one comes back to a key. -/
def Cyclic (next : α → Option α) (a : α) : Prop :=
  ∃ i j, i < j ∧ path next a i = path next a j ∧ path next a i ≠ none

theorem path_succ' (next : α → Option α) (a : α) (k : ℕ) :
    path next a (k + 1) = (next a).bind fun b => path next b k := by
  induction k with
  | zero => rw [path, path, Option.bind_some]; cases next a <;> rfl
  | succ k ih =>
      rw [path, ih]
      cases next a with
      | none => rfl
      | some b => rw [Option.bind_some, Option.bind_some, path]

/-- A path that ended stays so. -/
theorem path_eq_none {k m : ℕ} (h : path next a k = none) (hkm : k ≤ m) : path next a m = none := by
  induction m, hkm using Nat.le_induction with
  | base => exact h
  | succ m _ ih => rw [path, ih, Option.bind_none]

/-- **A chain is the path from its start.** -/
theorem Chain.path_eq (h : Chain next a l) (k : ℕ) : path next a k = l[k]? := by
  induction h generalizing k with
  | last hn =>
      rcases k with _ | k
      · rfl
      · rw [path_succ', hn]
        rfl
  | step hs t ih =>
      rcases k with _ | k
      · rfl
      · rw [path_succ', hs, Option.bind_some, ih, List.getElem?_cons_succ]

/-- Where a path ends there is a chain. -/
theorem exists_chain {k : ℕ} {b : α} (h : path next a k = some b) (hb : next b = none) :
    ∃ l, Chain next a l ∧ l[k]? = some b ∧ l.length = k + 1 := by
  induction k generalizing a with
  | zero =>
      obtain rfl := Option.some.inj h
      exact ⟨[a], .last hb, rfl, rfl⟩
  | succ k ih =>
      rw [path_succ'] at h
      obtain ⟨c, hc, hpath⟩ := Option.bind_eq_some_iff.1 h
      obtain ⟨l, hl, hk, hlen⟩ := ih hpath
      exact ⟨a :: l, .step hc hl, hk, by rw [List.length_cons, hlen]⟩

/-- **Two tables with the same successors along a path have the same path.** -/
theorem path_congr {n : ℕ} (h : ∀ k < n, ∀ b, path next a k = some b → next' b = next b) {k : ℕ}
    (hk : k ≤ n) : path next' a k = path next a k := by
  induction k with
  | zero => rfl
  | succ k ih =>
      rw [path, path, ih (by omega)]
      cases hb : path next a k with
      | none => rfl
      | some b => exact h k (by omega) b hb

/-- Two keys that are the same have the same keys behind them. -/
theorem path_add {i j : ℕ} (h : path next a i = path next a j) (k : ℕ) :
    path next a (i + k) = path next a (j + k) := by
  induction k with
  | zero => exact h
  | succ k ih => rw [← Nat.add_assoc, ← Nat.add_assoc, path, path, ih]

/-- **A path that comes back goes on forever.** -/
theorem Cyclic.path_ne_none (h : Cyclic next a) (k : ℕ) : path next a k ≠ none := by
  obtain ⟨i, j, hij, heq, hne⟩ := h
  -- the path shifted by `j - i` is the same from `i` on
  induction k using Nat.strong_induction_on with
  | _ k ih =>
      intro hk
      rcases Nat.lt_or_ge k j with hlt | hge
      · exact hne (heq.trans (path_eq_none hk (Nat.le_of_lt hlt)))
      · have hback := path_add heq (k - j)
        rw [show j + (k - j) = k by omega, hk] at hback
        exact ih (i + (k - j)) (by omega) hback

theorem Cyclic.not_chain (h : Cyclic next a) (l : List α) : ¬ Chain next a l := by
  intro hl
  refine h.path_ne_none l.length ?_
  rw [hl.path_eq, List.getElem?_eq_none (Nat.le_refl _)]

/-- **A path through finitely many keys comes back** if it does not end before. -/
theorem cyclic_of_path {t : Finset α} (h : ∀ k ≤ t.card, ∃ b ∈ t, path next a k = some b) :
    Cyclic next a := by
  have hmaps : ∀ k ∈ Finset.range (t.card + 1), path next a k ∈ t.map Function.Embedding.some := by
    intro k hk
    obtain ⟨b, hb, hpath⟩ := h k (Nat.lt_succ_iff.1 (Finset.mem_range.1 hk))
    exact Finset.mem_map.2 ⟨b, hb, hpath.symm⟩
  have hcard : (t.map Function.Embedding.some).card < (Finset.range (t.card + 1)).card := by
    rw [Finset.card_map, Finset.card_range]
    exact Nat.lt_succ_self _
  obtain ⟨i, hi, j, hj, hne, heq⟩ := Finset.exists_ne_map_eq_of_card_lt_of_maps_to hcard hmaps
  have hsome {k : ℕ} (hk : k ∈ Finset.range (t.card + 1)) : path next a k ≠ none := by
    obtain ⟨b, -, hpath⟩ := h k (Nat.lt_succ_iff.1 (Finset.mem_range.1 hk))
    rw [hpath]
    exact Option.some_ne_none b
  rcases Nat.lt_or_gt_of_ne hne with hlt | hgt
  · exact ⟨i, j, hlt, heq, hsome hi⟩
  · exact ⟨j, i, hgt, heq.symm, hsome hj⟩

end Chains
