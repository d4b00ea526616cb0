/-
# The first member of a list that has a property

`l.find? p` is that member and `changeFirst p f l` is the list with `f` applied to it.  A table of
`n` places is `(List.range n).map place`, and to change its first place with `p` is to change the
one place that a search of the indices finds (`changeFirst_map`).  What a search finds in a list
that was changed is settled by how the two properties meet:

| the search | finds |
| --- | --- |
| for the property that was looked for, which `f` keeps | the member that was changed |
| for one that has nothing to do with it | what it found before |
| for one that `f` brings in, and nothing had | the member that was changed |
-/

import Mathlib.Algebra.Order.Ring.Int
import Mathlib.Data.List.Basic

namespace Firsts

variable {α β : Type*}

/-- `l` with `f` applied to its first member that has `p`. -/
def changeFirst (p : α → Bool) (f : α → α) : List α → List α
  | [] => []
  | a :: l => if p a then f a :: l else a :: changeFirst p f l

section
variable {p q : α → Bool} {f : α → α} {l : List α}

theorem changeFirst_cons_of_pos {a : α} (h : p a = true) :
    changeFirst p f (a :: l) = f a :: l := by
  rw [changeFirst, if_pos h]

theorem changeFirst_cons_of_neg {a : α} (h : ¬ p a = true) :
    changeFirst p f (a :: l) = a :: changeFirst p f l := by
  rw [changeFirst, if_neg h]

/-- **A table is changed in the place that a search of its indices finds.** -/
theorem changeFirst_map [DecidableEq β] (g : β → α) {l : List β} (hl : l.Nodup) :
    changeFirst p f (l.map g) =
      l.map fun b => if l.find? (fun b => p (g b)) = some b then f (g b) else g b := by
  induction l with
  | nil => rfl
  | cons b l ih =>
      obtain ⟨hb, hl⟩ := List.nodup_cons.1 hl
      have hsearch : (b :: l).find? (fun b => p (g b)) =
          if p (g b) = true then some b else l.find? fun b => p (g b) := by
        rw [List.find?_cons]
        cases p (g b) <;> rfl
      rw [List.map_cons, List.map_cons, hsearch]
      by_cases hp : p (g b) = true
      · rw [changeFirst_cons_of_pos hp, if_pos hp, if_pos rfl]
        refine congrArg _ (List.map_congr_left fun c hc => ?_)
        have hne : some b ≠ some c := by
          rintro ⟨⟩
          exact hb hc
        rw [if_neg hne]
      · have hne : l.find? (fun b => p (g b)) ≠ some b :=
          fun h => hb (List.mem_of_find?_eq_some h)
        rw [changeFirst_cons_of_neg hp, if_neg hp, if_neg hne, ih hl]

/-- The search for the property finds the member that was changed. -/
theorem find?_changeFirst_self (hf : ∀ a, p a = true → p (f a) = true) :
    (changeFirst p f l).find? p = (l.find? p).map f := by
  induction l with
  | nil => rfl
  | cons a l ih =>
      by_cases hp : p a = true
      · rw [changeFirst_cons_of_pos hp, List.find?_cons_of_pos (hf a hp), List.find?_cons_of_pos hp,
          Option.map_some]
      · rw [changeFirst_cons_of_neg hp, List.find?_cons_of_neg hp, List.find?_cons_of_neg hp, ih]

/-- **A search for something else finds what it found.** -/
theorem find?_changeFirst_of_disjoint (h : ∀ a, p a = true → q a = false)
    (hf : ∀ a, p a = true → q (f a) = false) : (changeFirst p f l).find? q = l.find? q := by
  induction l with
  | nil => rfl
  | cons a l ih =>
      by_cases hp : p a = true
      · rw [changeFirst_cons_of_pos hp, List.find?_cons_of_neg (by simp [hf a hp]),
          List.find?_cons_of_neg (by simp [h a hp])]
      · rw [changeFirst_cons_of_neg hp, List.find?_cons, List.find?_cons, ih]

/-- **What the change brings in is found**, if nothing had it. -/
theorem find?_changeFirst_new (h : l.find? q = none) (hf : ∀ a, p a = true → q (f a) = true) :
    (changeFirst p f l).find? q = (l.find? p).map f := by
  induction l with
  | nil => rfl
  | cons a l ih =>
      have ha : ¬ q a = true := by
        have := List.find?_eq_none.1 h a List.mem_cons_self
        simpa using this
      rw [List.find?_cons_of_neg ha] at h
      by_cases hp : p a = true
      · rw [changeFirst_cons_of_pos hp, List.find?_cons_of_pos (hf a hp), List.find?_cons_of_pos hp,
          Option.map_some]
      · rw [changeFirst_cons_of_neg hp, List.find?_cons_of_neg ha, List.find?_cons_of_neg hp, ih h]

/-- Members with `p` are behind all others. -/
def Behind (p : α → Bool) (l : List α) : Prop := l.Pairwise fun a b => p a = true → p b = true

/-- What precedes the change is found as before. -/
theorem find?_changeFirst_of_behind (hl : Behind p l) (h : ∀ a, p a = true → q a = false) {a : α}
    (ha : l.find? q = some a) : (changeFirst p f l).find? q = some a := by
  induction l with
  | nil => cases ha
  | cons b l ih =>
      obtain ⟨hb, hl⟩ := List.pairwise_cons.1 hl
      by_cases hp : p b = true
      · have hnone : (b :: l).find? q = none := by
          refine List.find?_eq_none.2 fun c hc => ?_
          rcases List.mem_cons.1 hc with rfl | hc
          · simp [h c hp]
          · simp [h c (hb c hc hp)]
        rw [hnone] at ha
        cases ha
      · rw [changeFirst_cons_of_neg hp]
        by_cases hq : q b = true
        · rwa [List.find?_cons_of_pos hq] at ha ⊢
        · rw [List.find?_cons_of_neg hq] at ha ⊢
          exact ih hl ha

/-- The first of them can be made one of the others. -/
theorem Behind.change (hl : Behind p l) (hf : ∀ a, p (f a) = false) :
    Behind p (changeFirst p f l) := by
  induction l with
  | nil => exact List.Pairwise.nil
  | cons b l ih =>
      obtain ⟨-, hl⟩ := List.pairwise_cons.1 hl
      by_cases hp : p b = true
      · rw [changeFirst_cons_of_pos hp]
        exact List.pairwise_cons.2 ⟨fun _ _ hc => absurd ((hf b).symm.trans hc) Bool.false_ne_true, hl⟩
      · rw [changeFirst_cons_of_neg hp]
        exact List.pairwise_cons.2 ⟨fun c _ hc => absurd hc hp, ih hl⟩

/-- A member of the list that was changed is one of the list, or was changed. -/
theorem mem_changeFirst {c : α} (h : c ∈ changeFirst q f l) : ∃ a ∈ l, c = a ∨ c = f a := by
  induction l with
  | nil => cases h
  | cons b l ih =>
      by_cases hq : q b = true
      · rw [changeFirst_cons_of_pos hq] at h
        rcases List.mem_cons.1 h with rfl | h
        · exact ⟨b, List.mem_cons_self, .inr rfl⟩
        · exact ⟨c, List.mem_cons_of_mem _ h, .inl rfl⟩
      · rw [changeFirst_cons_of_neg hq] at h
        rcases List.mem_cons.1 h with rfl | h
        · exact ⟨c, List.mem_cons_self, .inl rfl⟩
        · obtain ⟨a, ha, hc⟩ := ih h
          exact ⟨a, List.mem_cons_of_mem _ ha, hc⟩

/-- A change that `p` does not see leaves the order. -/
theorem Behind.change_of_eq (hl : Behind p l) (hf : ∀ a, p (f a) = p a) :
    Behind p (changeFirst q f l) := by
  induction l with
  | nil => exact List.Pairwise.nil
  | cons b l ih =>
      obtain ⟨hb, hl⟩ := List.pairwise_cons.1 hl
      by_cases hq : q b = true
      · rw [changeFirst_cons_of_pos hq]
        exact List.pairwise_cons.2 ⟨fun c hc hp => hb c hc (hf b ▸ hp), hl⟩
      · rw [changeFirst_cons_of_neg hq]
        refine List.pairwise_cons.2 ⟨fun c hc hp => ?_, ih hl⟩
        obtain ⟨a, ha, rfl | rfl⟩ := mem_changeFirst hc
        · exact hb c ha hp
        · rw [hf]
          exact hb a ha hp

end

end Firsts
