/-
# Runs of a step function

A system that takes one operation at a time is a function `step : σ → ι → σ`, and a run
is the state a list of operations leaves behind.  Two rules are wanted of it.  The first is
induction: what one step keeps under a side condition, a run keeps whose steps all meet the
condition (`run_invariant`).  The second makes the side condition exact.  When a step that
breaks it spoils an observation at once, the observation is good after every prefix of a run
precisely when every step meets the condition (`forall_prefix_iff_stepsMeet`).
-/

import Mathlib.Algebra.Order.Ring.Int
import Mathlib.Data.List.Basic

namespace Runs

variable {σ ι : Type*}

/-- The state after the operations `ops`, taken from left to right. -/
def run (step : σ → ι → σ) (s : σ) (ops : List ι) : σ := ops.foldl step s

@[simp] theorem run_nil (step : σ → ι → σ) (s : σ) : run step s [] = s := rfl

@[simp] theorem run_cons (step : σ → ι → σ) (s : σ) (i : ι) (ops : List ι) :
    run step s (i :: ops) = run step (step s i) ops := rfl

@[simp] theorem run_append (step : σ → ι → σ) (s : σ) (ops ops' : List ι) :
    run step s (ops ++ ops') = run step (run step s ops) ops' := by
  simp [run]

/-- Each operation of the run meets `ok` in the state it is taken from. -/
def StepsMeet (step : σ → ι → σ) (ok : σ → ι → Prop) : σ → List ι → Prop
  | _, [] => True
  | s, i :: ops => ok s i ∧ StepsMeet step ok (step s i) ops

@[simp] theorem stepsMeet_nil (step : σ → ι → σ) (ok : σ → ι → Prop) (s : σ) :
    StepsMeet step ok s [] := trivial

@[simp] theorem stepsMeet_cons (step : σ → ι → σ) (ok : σ → ι → Prop) (s : σ) (i : ι)
    (ops : List ι) :
    StepsMeet step ok s (i :: ops) ↔ ok s i ∧ StepsMeet step ok (step s i) ops := Iff.rfl

instance decidableStepsMeet (step : σ → ι → σ) (ok : σ → ι → Prop) [∀ s i, Decidable (ok s i)] :
    ∀ s ops, Decidable (StepsMeet step ok s ops)
  | _, [] => .isTrue trivial
  | s, i :: ops =>
      have := decidableStepsMeet step ok (step s i) ops
      inferInstanceAs (Decidable (ok s i ∧ StepsMeet step ok (step s i) ops))

/-- A condition met along a run is met along every prefix of it. -/
theorem StepsMeet.of_isPrefix {step : σ → ι → σ} {ok : σ → ι → Prop} {s : σ} {pre ops : List ι}
    (h : StepsMeet step ok s ops) (hpre : pre <+: ops) : StepsMeet step ok s pre := by
  induction pre generalizing s ops with
  | nil => trivial
  | cons i pre ih =>
      cases ops with
      | nil => simp at hpre
      | cons j ops =>
          obtain ⟨rfl, hrest⟩ := List.cons_prefix_cons.1 hpre
          exact ⟨h.1, ih h.2 hrest⟩

/-- A condition is met along a run in two parts if it is met along both. -/
theorem stepsMeet_append {step : σ → ι → σ} {ok : σ → ι → Prop} {s : σ} {pre ops : List ι} :
    StepsMeet step ok s (pre ++ ops) ↔
      StepsMeet step ok s pre ∧ StepsMeet step ok (run step s pre) ops := by
  induction pre generalizing s with
  | nil => simp
  | cons i pre ih => simp [ih, and_assoc]

/-- A weaker condition is met along a run too. -/
theorem StepsMeet.mono {step : σ → ι → σ} {ok ok' : σ → ι → Prop} (h : ∀ s i, ok s i → ok' s i)
    {s : σ} {ops : List ι} (hok : StepsMeet step ok s ops) : StepsMeet step ok' s ops := by
  induction ops generalizing s with
  | nil => trivial
  | cons i ops ih => exact ⟨h s i hok.1, ih hok.2⟩

/-- Two conditions met along a run are met together. -/
theorem StepsMeet.and {step : σ → ι → σ} {ok ok' : σ → ι → Prop} {s : σ} {ops : List ι}
    (h : StepsMeet step ok s ops) (h' : StepsMeet step ok' s ops) :
    StepsMeet step (fun s i => ok s i ∧ ok' s i) s ops := by
  induction ops generalizing s with
  | nil => trivial
  | cons i ops ih => exact ⟨⟨h.1, h'.1⟩, ih h.2 h'.2⟩

/-- **Induction over a run.**  What every step keeps that meets the condition, a run of such
steps keeps. -/
theorem run_invariant {step : σ → ι → σ} {ok : σ → ι → Prop} {Inv : σ → Prop}
    (hstep : ∀ s i, Inv s → ok s i → Inv (step s i)) {s : σ} {ops : List ι} (h0 : Inv s)
    (hok : StepsMeet step ok s ops) : Inv (run step s ops) := by
  induction ops generalizing s with
  | nil => exact h0
  | cons i ops ih => exact ih (hstep s i h0 hok.1) hok.2

/-- What every step keeps, a run keeps. -/
theorem run_keeps {step : σ → ι → σ} {Inv : σ → Prop} (hstep : ∀ s i, Inv s → Inv (step s i))
    {s : σ} (h0 : Inv s) (ops : List ι) : Inv (run step s ops) := by
  induction ops generalizing s with
  | nil => exact h0
  | cons i ops ih => exact ih (hstep s i h0)

/-- A partial step that succeeds with the result of `step'` in every state of an invariant succeeds
along every run from there. -/
theorem foldlM_eq_some_run {step : σ → ι → Option σ} {step' : σ → ι → σ} {Inv : σ → Prop}
    (hstep : ∀ s i, Inv s → step s i = some (step' s i)) (hkeeps : ∀ s i, Inv s → Inv (step' s i))
    {s : σ} (h0 : Inv s) (ops : List ι) : ops.foldlM step s = some (run step' s ops) := by
  induction ops generalizing s with
  | nil => rfl
  | cons i ops ih =>
      rw [List.foldlM_cons, hstep s i h0]
      exact ih (hkeeps s i h0)

/-- What every partial step keeps, a run that succeeds keeps. -/
theorem foldlM_keeps {step : σ → ι → Option σ} {Inv : σ → Prop}
    (hstep : ∀ s i s', Inv s → step s i = some s' → Inv s') {s s' : σ} (h0 : Inv s)
    {ops : List ι} (h : ops.foldlM step s = some s') : Inv s' := by
  induction ops generalizing s with
  | nil => exact Option.some.inj h ▸ h0
  | cons i ops ih =>
      obtain ⟨t, ht, hrest⟩ := Option.bind_eq_some_iff.1 h
      exact ih (hstep s i t h0 ht) hrest

/-- **The exact condition of a run.**  The steps that meet `ok` keep `Inv`, the invariant
gives the observation `P`, and a step against `ok` loses `P`.  Then `P` is observed after
every prefix of a run if and only if all its steps meet `ok`. -/
theorem forall_prefix_iff_stepsMeet {step : σ → ι → σ} {ok : σ → ι → Prop} {Inv P : σ → Prop}
    (hstep : ∀ s i, Inv s → ok s i → Inv (step s i)) (hgood : ∀ s, Inv s → P s)
    (hbad : ∀ s i, Inv s → ¬ ok s i → ¬ P (step s i)) {s : σ} (h0 : Inv s) (ops : List ι) :
    (∀ pre, pre <+: ops → P (run step s pre)) ↔ StepsMeet step ok s ops := by
  constructor
  · intro h
    induction ops generalizing s with
    | nil => trivial
    | cons i ops ih =>
        have hi : ok s i := by
          by_contra hn
          exact hbad s i h0 hn (h [i] (by simp))
        refine ⟨hi, ih (hstep s i h0 hi) fun pre hpre => ?_⟩
        exact h (i :: pre) (List.cons_prefix_cons.2 ⟨rfl, hpre⟩)
  · intro h pre hpre
    exact hgood _ (run_invariant hstep h0 (h.of_isPrefix hpre))

end Runs
