/-
# Computations that can fail, panic or go on

A computation takes a state and returns an outcome and a state: a value, an error (`Result`
with its message), a panic, or the note that its fuel ran out before it was finished.  Errors
and panics end a sequence of computations and keep the state they were raised in.

The relations that carry the proofs about interpreters and parsers are kept by sequences:

| relation | meaning |
| --- | --- |
| `Meets P x Q` | from `P` to `Q`, with neither a panic nor a want of fuel |
| `Safe I x` | no panic, and `I` is kept |
| `Sim R x y` | side by side in related states, ending alike |
| `Le x y` | where `x` is finished, `y` does the same: more fuel only completes |
| `PanicsIff B x` | `x` panics exactly if it leaves a state with `B` |
| `Stays x` | `x` does not lower a flag |
| `SimUnless R x y` | unless one raises its flag, they end alike, with values related by `R` |

`Safe`, `Sim`, `Le`, `PanicsIff` and `Stays` are congruences (`Congruence`), so that an interpreter's
step keeps them all if it keeps any congruence.
-/

import Mathlib.Algebra.Order.Ring.Int
import Mathlib.Tactic.SplitIfs

namespace Computations

universe u

variable {σ τ : Type u} {α β : Type u}

/-- How a computation ended: with a value, an error, a panic, or not yet. -/
inductive Out (α : Type u)
  | ok (a : α)
  | err (msg : String)
  | panic
  | more
  deriving DecidableEq

/-- It ended, with a value or an error. -/
def Out.Ended (o : Out α) : Prop := (∃ a, o = .ok a) ∨ ∃ msg, o = .err msg

@[simp] theorem Out.ended_iff (o : Out α) : o.Ended ↔ o ≠ .panic ∧ o ≠ .more := by
  cases o <;> simp [Out.Ended]

/-- A computation over a state. -/
def Comp (σ α : Type u) : Type u := σ → Out α × σ

namespace Comp

/-- Return a value. -/
def pure (a : α) : Comp σ α := fun s => (.ok a, s)

/-- Raise an error. -/
def err (msg : String) : Comp σ α := fun s => (.err msg, s)

/-- Panic. -/
def panic : Comp σ α := fun s => (.panic, s)

/-- Stop for want of fuel. -/
def more : Comp σ α := fun s => (.more, s)

/-- Read the state. -/
def get : Comp σ σ := fun s => (.ok s, s)

/-- Replace the state. -/
def set (s : σ) : Comp σ PUnit := fun _ => (.ok ⟨⟩, s)

/-- An outcome as a computation that leaves the state alone. -/
def ofOut (o : Out α) : Comp σ α := fun s => (o, s)

/-- Catch an error, as `match result { Ok(a) => .., Err(e) => .. }` does. -/
def attempt (x : Comp σ α) : Comp σ (Except String α) := fun s =>
  match x s with
  | (.ok a, s') => (.ok (.ok a), s')
  | (.err msg, s') => (.ok (.error msg), s')
  | (.panic, s') => (.panic, s')
  | (.more, s') => (.more, s')

/-- Go on with the value, unless there is none. -/
def bind (x : Comp σ α) (f : α → Comp σ β) : Comp σ β := fun s =>
  match x s with
  | (.ok a, s') => f a s'
  | (.err msg, s') => (.err msg, s')
  | (.panic, s') => (.panic, s')
  | (.more, s') => (.more, s')

instance : Monad (Comp σ) where
  pure := Comp.pure
  bind := Comp.bind

@[simp] theorem pure_apply (a : α) (s : σ) : (Pure.pure a : Comp σ α) s = (.ok a, s) := rfl

@[simp] theorem err_apply (msg : String) (s : σ) : (err msg : Comp σ α) s = (.err msg, s) := rfl

@[simp] theorem panic_apply (s : σ) : (panic : Comp σ α) s = (.panic, s) := rfl

@[simp] theorem more_apply (s : σ) : (more : Comp σ α) s = (.more, s) := rfl

@[simp] theorem get_apply (s : σ) : (get : Comp σ σ) s = (.ok s, s) := rfl

@[simp] theorem set_apply (s s' : σ) : (set s : Comp σ PUnit) s' = (.ok ⟨⟩, s) := rfl

@[simp] theorem ofOut_apply (o : Out α) (s : σ) : (ofOut o : Comp σ α) s = (o, s) := rfl

theorem bind_apply (x : Comp σ α) (f : α → Comp σ β) (s : σ) :
    (x >>= f) s = match x s with
      | (.ok a, s') => f a s'
      | (.err msg, s') => (.err msg, s')
      | (.panic, s') => (.panic, s')
      | (.more, s') => (.more, s') := rfl

theorem ite_apply (c : Prop) [Decidable c] (x y : Comp σ α) (s : σ) :
    (if c then x else y) s = if c then x s else y s := by
  split_ifs <;> rfl

/-- After a value the sequence goes on. -/
theorem bind_of_ok {x : Comp σ α} {a : α} {s s' : σ} (h : x s = (.ok a, s')) (f : α → Comp σ β) :
    (x >>= f) s = f a s' := by
  rw [bind_apply, h]

@[simp] theorem pure_bind (a : α) (f : α → Comp σ β) : (Pure.pure a >>= f) = f a := rfl

/-- **A sequence that returned a value** did so in both parts. -/
theorem bind_eq_ok_iff {x : Comp σ α} {f : α → Comp σ β} {b : β} {s s' : σ} :
    (x >>= f) s = (.ok b, s') ↔ ∃ a s₁, x s = (.ok a, s₁) ∧ f a s₁ = (.ok b, s') := by
  rw [bind_apply]
  rcases x s with ⟨_ | _ | _ | _, s₁⟩ <;> simp [and_assoc]

end Comp

/-! ### Total correctness -/

/-- Started where `P` holds, the computation returns a value or an error, and `Q` holds of the
value and the state it was returned in. -/
def Meets (P : σ → Prop) (x : Comp σ α) (Q : α → σ → Prop) : Prop :=
  ∀ s, P s → (∃ a s', x s = (.ok a, s') ∧ Q a s') ∨ ∃ msg s', x s = (.err msg, s')

namespace Meets

variable {P P' : σ → Prop} {Q Q' : α → σ → Prop}

theorem pure {a : α} (h : ∀ s, P s → Q a s) : Meets P (Pure.pure a) Q :=
  fun s hs => .inl ⟨a, s, rfl, h s hs⟩

theorem err (msg : String) : Meets P (Comp.err msg : Comp σ α) Q := fun s _ => .inr ⟨msg, s, rfl⟩

/-- **Sequences meet their conditions part by part.** -/
theorem bind {x : Comp σ α} {f : α → Comp σ β} {Q' : β → σ → Prop} (h : Meets P x Q)
    (hf : ∀ a, Meets (Q a) (f a) Q') : Meets P (x >>= f) Q' := by
  intro s hs
  rcases h s hs with ⟨a, s', hx, hq⟩ | ⟨msg, s', hx⟩
  · rw [Comp.bind_of_ok hx]
    exact hf a s' hq
  · refine .inr ⟨msg, s', ?_⟩
    rw [Comp.bind_apply, hx]

theorem ite {c : Prop} [Decidable c] {x y : Comp σ α} (h : c → Meets P x Q)
    (h' : ¬ c → Meets P y Q) : Meets P (if c then x else y) Q := by
  split_ifs with hc
  · exact h hc
  · exact h' hc

theorem mono {x : Comp σ α} (h : Meets P x Q) (hp : ∀ s, P' s → P s)
    (hq : ∀ a s, Q a s → Q' a s) : Meets P' x Q' := by
  intro s hs
  rcases h s (hp s hs) with ⟨a, s', hx, h'⟩ | hmsg
  · exact .inl ⟨a, s', hx, hq a s' h'⟩
  · exact .inr hmsg

theorem ended {x : Comp σ α} (h : Meets P x Q) {s : σ} (hs : P s) : (x s).1.Ended := by
  rcases h s hs with ⟨a, s', hx, -⟩ | ⟨msg, s', hx⟩ <;> simp [hx]

end Meets

/-! ### Safety -/

/-- Started with `I`, the computation does not panic, and however it ends it ends with `I`. -/
def Safe (I : σ → Prop) (x : Comp σ α) : Prop := ∀ s, I s → (x s).1 ≠ .panic ∧ I (x s).2

namespace Safe

variable {I : σ → Prop}

theorem pure (a : α) : Safe I (Pure.pure a) := fun _ h => ⟨nofun, h⟩

theorem err (msg : String) : Safe I (Comp.err msg : Comp σ α) := fun _ h => ⟨nofun, h⟩

theorem more : Safe I (Comp.more : Comp σ α) := fun _ h => ⟨nofun, h⟩

theorem bind {x : Comp σ α} {f : α → Comp σ β} (h : Safe I x) (hf : ∀ a, Safe I (f a)) :
    Safe I (x >>= f) := by
  intro s hs
  have hx := h s hs
  rw [Comp.bind_apply]
  rcases hxs : x s with ⟨o, s'⟩
  rw [hxs] at hx
  cases o with
  | ok a => exact hf a s' hx.2
  | err msg => exact ⟨nofun, hx.2⟩
  | panic => exact absurd rfl hx.1
  | more => exact ⟨nofun, hx.2⟩

end Safe

/-! ### Side by side -/

/-- Started in related states, the computations end alike and in related states. -/
def Sim (R : σ → τ → Prop) (x : Comp σ α) (y : Comp τ α) : Prop :=
  ∀ s t, R s t → (x s).1 = (y t).1 ∧ R (x s).2 (y t).2

namespace Sim

variable {R : σ → τ → Prop}

theorem pure (a : α) : Sim R (Pure.pure a) (Pure.pure a) := fun _ _ h => ⟨rfl, h⟩

theorem err (msg : String) : Sim R (Comp.err msg : Comp σ α) (Comp.err msg) :=
  fun _ _ h => ⟨rfl, h⟩

theorem more : Sim R (Comp.more : Comp σ α) Comp.more := fun _ _ h => ⟨rfl, h⟩

theorem ofOut (o : Out α) : Sim R (Comp.ofOut o) (Comp.ofOut o) := fun _ _ h => ⟨rfl, h⟩

/-- **Sequences simulate part by part.** -/
theorem bind {x : Comp σ α} {y : Comp τ α} {f : α → Comp σ β} {g : α → Comp τ β}
    (h : Sim R x y) (hfg : ∀ a, Sim R (f a) (g a)) : Sim R (x >>= f) (y >>= g) := by
  intro s t hst
  obtain ⟨h1, h2⟩ := h s t hst
  rw [Comp.bind_apply, Comp.bind_apply]
  rcases hx : x s with ⟨o, s'⟩
  rcases hy : y t with ⟨o', t'⟩
  rw [hx, hy] at h1 h2
  obtain rfl : o = o' := h1
  cases o with
  | ok a => exact hfg a s' t' h2
  | err msg => exact ⟨rfl, h2⟩
  | panic => exact ⟨rfl, h2⟩
  | more => exact ⟨rfl, h2⟩

theorem ite {c : Prop} [Decidable c] {x x' : Comp σ α} {y y' : Comp τ α} (h : c → Sim R x y)
    (h' : ¬ c → Sim R x' y') : Sim R (if c then x else x') (if c then y else y') := by
  split_ifs with hc
  · exact h hc
  · exact h' hc

end Sim

/-! ### More fuel -/

/-- Where `x` is finished, `y` does the same. -/
def Le (x y : Comp σ α) : Prop := ∀ s, (x s).1 ≠ .more → y s = x s

namespace Le

theorem refl (x : Comp σ α) : Le x x := fun _ _ => rfl

theorem more (x : Comp σ α) : Le Comp.more x := fun _ h => absurd rfl h

/-- **Sequences complete part by part.** -/
theorem bind {x y : Comp σ α} {f g : α → Comp σ β} (h : Le x y) (hfg : ∀ a, Le (f a) (g a)) :
    Le (x >>= f) (y >>= g) := by
  intro s hs
  rw [Comp.bind_apply] at hs
  have hx : y s = x s := by
    apply h s
    intro hmore
    rcases hxs : x s with ⟨o, s'⟩
    rw [hxs] at hs hmore
    obtain rfl : o = .more := hmore
    exact hs rfl
  rw [Comp.bind_apply, Comp.bind_apply, hx]
  rcases hxs : x s with ⟨o, s'⟩
  rw [hxs] at hs
  cases o with
  | ok a => exact hfg a s' hs
  | err msg => rfl
  | panic => rfl
  | more => rfl

end Le

/-! ### Panics -/

/-- Started without `B`, the computation panics exactly if it ends with `B`. -/
def PanicsIff (B : σ → Prop) (x : Comp σ α) : Prop :=
  ∀ s, ¬ B s → ((x s).1 = .panic ↔ B (x s).2)

namespace PanicsIff

variable {B : σ → Prop}

/-- A computation that leaves the state alone and does not panic. -/
theorem of_stays {x : Comp σ α} (h : ∀ s, (x s).1 ≠ .panic ∧ (x s).2 = s) : PanicsIff B x := by
  intro s hs
  rw [(h s).2]
  exact iff_of_false (h s).1 hs

/-- **A sequence panics in the part that brings `B` about.** -/
theorem bind {x : Comp σ α} {f : α → Comp σ β} (h : PanicsIff B x) (hf : ∀ a, PanicsIff B (f a)) :
    PanicsIff B (x >>= f) := by
  intro s hs
  have hx := h s hs
  rw [Comp.bind_apply]
  rcases hxs : x s with ⟨o, s'⟩
  rw [hxs] at hx
  cases o with
  | ok a => exact hf a s' fun hB => by cases hx.2 hB
  | err msg => exact iff_of_false nofun fun hB => by cases hx.2 hB
  | panic => exact iff_of_true rfl (hx.1 rfl)
  | more => exact iff_of_false nofun fun hB => by cases hx.2 hB

end PanicsIff

/-! ### Beside a flag -/

/-- A computation beside a flag. -/
def beside (x : Comp σ α) : Comp (σ × Bool) α := fun s => ((x s.1).1, ((x s.1).2, s.2))

/-- Raise the flag if `b`. -/
def raise (b : Bool) : Comp (σ × Bool) PUnit := fun s => (.ok ⟨⟩, (s.1, s.2 || b))

/-- A raised flag stays. -/
def Stays (x : Comp (σ × Bool) α) : Prop := ∀ s, (x (s, true)).2.2 = true

theorem Stays.beside (x : Comp σ α) : Stays (beside x) := fun _ => rfl

theorem Stays.raise (b : Bool) : Stays (raise b : Comp (σ × Bool) PUnit) := fun _ => rfl

theorem Stays.bind {x : Comp (σ × Bool) α} {f : α → Comp (σ × Bool) β} (h : Stays x)
    (hf : ∀ a, Stays (f a)) : Stays (x >>= f) := by
  intro s
  have hs := h s
  rw [Comp.bind_apply]
  rcases hx : x (s, true) with ⟨o, t, b⟩
  rw [hx] at hs
  obtain rfl : b = true := hs
  cases o with
  | ok a => exact hf a t
  | err msg => rfl
  | panic => rfl
  | more => rfl

/-- Outcomes of the same kind, with values related by `R`. -/
inductive OutRel (R : α → β → Prop) : Out α → Out β → Prop
  | ok {a : α} {b : β} (h : R a b) : OutRel R (.ok a) (.ok b)
  | err (msg msg' : String) : OutRel R (.err msg) (.err msg')
  | panic : OutRel R .panic .panic
  | more : OutRel R .more .more

/-- Unless one of them raises its flag, the computations end alike, in the same state. -/
structure SimUnless (R : α → β → Prop) (x : Comp (σ × Bool) α) (y : Comp (σ × Bool) β) : Prop where
  stays : Stays x
  stays' : Stays y
  ends : ∀ s, (x (s, false)).2.2 = false → (y (s, false)).2.2 = false →
    OutRel R (x (s, false)).1 (y (s, false)).1 ∧ (x (s, false)).2.1 = (y (s, false)).2.1

/-- A flag that is down after a sequence was down after its first part. -/
theorem Stays.down {x : Comp (σ × Bool) α} {f : α → Comp (σ × Bool) β} (hf : ∀ a, Stays (f a))
    {s : σ × Bool} (h : ((x >>= f) s).2.2 = false) : (x s).2.2 = false := by
  rw [Comp.bind_apply] at h
  rcases hx : x s with ⟨o, t, _ | _⟩
  · rfl
  · rw [hx] at h
    cases o with
    | ok a => exact absurd (hf a t) (by rw [h]; simp)
    | err msg => cases h
    | panic => cases h
    | more => cases h

namespace SimUnless

variable {α' β' : Type u} {R : α → β → Prop} {R' : α' → β' → Prop}

theorem pure {a : α} {b : β} (h : R a b) :
    SimUnless R (Pure.pure a : Comp (σ × Bool) α) (Pure.pure b) :=
  ⟨fun _ => rfl, fun _ => rfl, fun _ _ _ => ⟨.ok h, rfl⟩⟩

theorem err (msg msg' : String) :
    SimUnless R (Comp.err msg : Comp (σ × Bool) α) (Comp.err msg') :=
  ⟨fun _ => rfl, fun _ => rfl, fun _ _ _ => ⟨.err msg msg', rfl⟩⟩

theorem more : SimUnless R (Comp.more : Comp (σ × Bool) α) Comp.more :=
  ⟨fun _ => rfl, fun _ => rfl, fun _ _ _ => ⟨.more, rfl⟩⟩

/-- A computation beside a flag and itself. -/
theorem of_beside {R : α → α → Prop} (h : ∀ a, R a a) (x : Comp σ α) :
    SimUnless R (beside x) (beside x) := by
  refine ⟨fun _ => rfl, fun _ => rfl, fun s _ _ => ⟨?_, rfl⟩⟩
  rw [beside]
  cases (x s).1 with
  | ok a => exact .ok (h a)
  | err msg => exact .err msg msg
  | panic => exact .panic
  | more => exact .more

/-- After raising a flag nothing is asked. -/
theorem raise {b b' : Bool} {f : PUnit → Comp (σ × Bool) α} {g : PUnit → Comp (σ × Bool) β}
    (hf : ∀ a, Stays (f a)) (hg : ∀ a, Stays (g a))
    (h : b = false → b' = false → SimUnless R (f ⟨⟩) (g ⟨⟩)) :
    SimUnless R (Computations.raise b >>= f) (Computations.raise b' >>= g) := by
  refine ⟨(Stays.raise b).bind hf, (Stays.raise b').bind hg, fun s hs hs' => ?_⟩
  obtain rfl : b = false := Stays.down hf hs
  obtain rfl : b' = false := Stays.down hg hs'
  exact (h rfl rfl).ends s hs hs'

/-- Only one side raises its flag. -/
theorem raise_left {b : Bool} {f : PUnit → Comp (σ × Bool) α} {y : Comp (σ × Bool) β}
    (hf : ∀ a, Stays (f a)) (hy : Stays y) (h : b = false → SimUnless R (f ⟨⟩) y) :
    SimUnless R (Computations.raise b >>= f) y := by
  refine ⟨(Stays.raise b).bind hf, hy, fun s hs hs' => ?_⟩
  obtain rfl : b = false := Stays.down hf hs
  exact (h rfl).ends s hs hs'

/-- **Sequences part by part.** -/
theorem bind {x : Comp (σ × Bool) α} {y : Comp (σ × Bool) β} {f : α → Comp (σ × Bool) α'}
    {g : β → Comp (σ × Bool) β'} (h : SimUnless R x y) (hf : ∀ a, Stays (f a))
    (hg : ∀ b, Stays (g b)) (hfg : ∀ a b, R a b → SimUnless R' (f a) (g b)) :
    SimUnless R' (x >>= f) (y >>= g) := by
  refine ⟨h.stays.bind hf, h.stays'.bind hg, fun s hs hs' => ?_⟩
  have hdown := Stays.down hf hs
  have hdown' := Stays.down hg hs'
  obtain ⟨hout, hstate⟩ := h.ends s hdown hdown'
  rw [Comp.bind_apply] at hs hs' ⊢
  rw [Comp.bind_apply]
  rcases hx : x (s, false) with ⟨o, t, b⟩
  rcases hy : y (s, false) with ⟨o', t', b'⟩
  rw [hx] at hs hdown hout hstate
  rw [hy] at hs' hdown' hout hstate
  obtain rfl : b = false := hdown
  obtain rfl : b' = false := hdown'
  obtain rfl : t = t' := hstate
  cases hout with
  | ok h => exact (hfg _ _ h).ends t hs hs'
  | err msg msg' => exact ⟨.err msg msg', rfl⟩
  | panic => exact ⟨.panic, rfl⟩
  | more => exact ⟨.more, rfl⟩

end SimUnless

/-! ### Congruences -/

/-- A relation between computations that values, errors and sequences keep. -/
structure Congruence (P : ∀ ⦃α : Type u⦄, Comp σ α → Comp τ α → Prop) : Prop where
  pure : ∀ {α : Type u} (a : α), P (Pure.pure a) (Pure.pure a)
  err : ∀ {α : Type u} (msg : String), P (Comp.err msg : Comp σ α) (Comp.err msg)
  bind : ∀ {α β : Type u} {x : Comp σ α} {y : Comp τ α} {f : α → Comp σ β} {g : α → Comp τ β},
    P x y → (∀ a, P (f a) (g a)) → P (x >>= f) (y >>= g)

theorem Sim.congruence (R : σ → τ → Prop) : Congruence fun _ x y => Sim R x y :=
  ⟨Sim.pure, Sim.err, Sim.bind⟩

theorem Le.congruence : Congruence fun _ (x y : Comp σ _) => Le x y :=
  ⟨fun _ => .refl _, fun _ => .refl _, Le.bind⟩

theorem Safe.congruence (I : σ → Prop) : Congruence fun _ (x _y : Comp σ _) => Safe I x :=
  ⟨Safe.pure, Safe.err, Safe.bind⟩

theorem Stays.congruence :
    Congruence fun _ (x _y : Comp (σ × Bool) _) => Stays x :=
  ⟨fun _ _ => rfl, fun _ _ => rfl, Stays.bind⟩

theorem PanicsIff.congruence (B : σ → Prop) :
    Congruence fun _ (x _y : Comp σ _) => PanicsIff B x where
  pure _ := .of_stays fun _ => ⟨nofun, rfl⟩
  err _ := .of_stays fun _ => ⟨nofun, rfl⟩
  bind := PanicsIff.bind

end Computations
