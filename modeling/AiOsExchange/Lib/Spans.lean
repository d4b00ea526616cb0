/-
# Regions under a bar

A bump allocator hands out a region above a bar and raises the bar over it.  What it has handed
out is therefore below the bar, and no two of its regions share an element: that is all there is
to know of it (`Under`).  A mark remembers a bar with the regions of that time, and going back to
it is going back to both; so as long as every mark is one, it does not matter how they are nested
(`Marked`).
-/

import Mathlib.Order.CompletePartialOrder
import Mathlib.Order.Interval.Set.Disjoint

namespace Spans

variable {α : Type*} [Preorder α]

/-- The regions lie below the bar, and no two of them meet. -/
structure Under (bar : α) (regions : List (Set α)) : Prop where
  below : ∀ r ∈ regions, r ⊆ Set.Iio bar
  apart : regions.Pairwise Disjoint

theorem under_nil (bar : α) : Under bar [] := ⟨by simp, List.Pairwise.nil⟩

/-- What lies above the bar meets nothing. -/
theorem Under.disjoint {bar : α} {regions : List (Set α)} (h : Under bar regions) {r t : Set α}
    (hr : r ∈ regions) (ht : t ⊆ Set.Ici bar) : Disjoint t r := by
  rw [Set.disjoint_left]
  intro a ha har
  exact lt_irrefl a ((h.below r hr har).trans_le (ht ha))

/-- **A region above the bar joins the others** under a bar that is above it. -/
theorem Under.cons {bar bar' : α} {regions : List (Set α)} (h : Under bar regions) {t : Set α}
    (hlo : t ⊆ Set.Ici bar) (hhi : t ⊆ Set.Iio bar') (hle : bar ≤ bar') :
    Under bar' (t :: regions) where
  below := by
    intro r hr
    rcases List.mem_cons.1 hr with rfl | hr
    · exact hhi
    · exact (h.below r hr).trans (Set.Iio_subset_Iio hle)
  apart := List.pairwise_cons.2 ⟨fun _ hr => h.disjoint hr hlo, h.apart⟩

/-! ### Marks -/

variable {β : Type*}

/-- A state with the states at the marks that it can go back to, the last one first. -/
structure Marked (β : Type*) where
  now : β
  marks : List β

namespace Marked

/-- Every state of the stack has the property. -/
def Forall (P : β → Prop) (m : Marked β) : Prop := P m.now ∧ ∀ b ∈ m.marks, P b

def mark (m : Marked β) : Marked β := ⟨m.now, m.now :: m.marks⟩

/-- Going back to the last mark, where there is one. -/
def back (m : Marked β) : Option (Marked β) :=
  match m.marks with
  | [] => none
  | b :: bs => some ⟨b, bs⟩

variable {P : β → Prop} {m m' : Marked β}

theorem Forall.mark (h : m.Forall P) : m.mark.Forall P :=
  ⟨h.1, List.forall_mem_cons.2 h⟩

theorem Forall.back (h : m.Forall P) (hb : m.back = some m') : m'.Forall P := by
  obtain ⟨now, marks⟩ := m
  cases marks with
  | nil => cases hb
  | cons b bs =>
      obtain rfl := Option.some.inj hb
      exact List.forall_mem_cons.1 h.2

end Marked
end Spans
