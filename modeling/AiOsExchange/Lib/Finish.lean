/-
# Computations with fuel that finish

A family of computations, one for each fuel, `Ends` with a result if it does so from some fuel
on.  A result is a value or a failure; unlike an outcome it is never a want of fuel.  Families
built in sequence end part by part (`Ends.bind`), and a sequence that came to a result did so in
its first part or in its second (`bind_eq_out_iff`).  `Yields` is partial correctness: what a
computation returns and how it may fail, if it does not go on for ever.
-/

import AiOsExchange.Lib.Comp

namespace Computations

universe u

variable {σ α β : Type u}

/-- How a finished computation failed. -/
inductive Failure
  | error (msg : String)
  | panic
  deriving DecidableEq

/-- How a finished computation ended. -/
inductive Result (α : Type u)
  | value (a : α)
  | fails (e : Failure)
  deriving DecidableEq

/-- A failure as an outcome. -/
def Failure.out : Failure → Out α
  | .error msg => .err msg
  | .panic => .panic

/-- A result as an outcome. -/
def Result.out : Result α → Out α
  | .value a => .ok a
  | .fails e => e.out

theorem Failure.out_ne_more (e : Failure) : (e.out : Out α) ≠ .more := by cases e <;> nofun

theorem Result.out_ne_more (r : Result α) : r.out ≠ .more := by
  cases r with
  | value a => nofun
  | fails e => exact e.out_ne_more

/-- Results with one outcome are one. -/
theorem Result.out_inj {r r' : Result α} (h : r.out = r'.out) : r = r' := by
  rcases r with a | ⟨msg⟩ | _ <;> rcases r' with a' | ⟨msg'⟩ | _ <;> cases h <;> rfl

/-- A value that was returned is the result, in the state it was returned in. -/
theorem Result.eq_of_ok {a : α} {r : Result α} {s s' : σ} (h : (Out.ok a, s) = (r.out, s')) :
    r = .value a ∧ s' = s :=
  ⟨Result.out_inj (Prod.ext_iff.1 h).1.symm, (Prod.ext_iff.1 h).2.symm⟩

theorem Result.eq_of_err {msg : String} {r : Result α} {s s' : σ}
    (h : (Out.err msg, s) = (r.out, s')) : r = .fails (.error msg) ∧ s' = s :=
  ⟨Result.out_inj (Prod.ext_iff.1 h).1.symm, (Prod.ext_iff.1 h).2.symm⟩

/-- A sequence fails with its first part. -/
theorem Comp.bind_of_fails {x : Comp σ α} {e : Failure} {s s' : σ} (h : x s = (e.out, s'))
    (f : α → Comp σ β) : (x >>= f) s = (e.out, s') := by
  rw [bind_apply, h]
  cases e <;> rfl

/-- **A sequence that came to a result** did so in its second part, or failed in its first. -/
theorem Comp.bind_eq_out_iff {x : Comp σ α} {f : α → Comp σ β} {r : Result β} {s s' : σ} :
    (x >>= f) s = (r.out, s') ↔
      (∃ a s₁, x s = (.ok a, s₁) ∧ f a s₁ = (r.out, s')) ∨
        ∃ e, r = .fails e ∧ x s = (e.out, s') := by
  constructor
  · intro h
    rw [bind_apply] at h
    rcases hx : x s with ⟨o, s₁⟩
    rw [hx] at h
    cases o with
    | ok a => exact .inl ⟨a, s₁, rfl, h⟩
    | err msg =>
        obtain ⟨ho, rfl⟩ := Prod.ext_iff.1 h
        exact .inr ⟨.error msg, Result.out_inj ho.symm, rfl⟩
    | panic =>
        obtain ⟨ho, rfl⟩ := Prod.ext_iff.1 h
        exact .inr ⟨.panic, Result.out_inj ho.symm, rfl⟩
    | more => exact absurd (Prod.ext_iff.1 h).1.symm r.out_ne_more
  · rintro (⟨a, s₁, hx, hf⟩ | ⟨e, rfl, hx⟩)
    · rw [bind_of_ok hx, hf]
    · exact bind_of_fails hx f

/-- The computations end with this result from some fuel on. -/
def Ends (x : ℕ → Comp σ α) (s : σ) (r : Result α) (s' : σ) : Prop :=
  ∃ n, ∀ m, n ≤ m → x m s = (r.out, s')

namespace Ends

variable {x : ℕ → Comp σ α} {f : ℕ → α → Comp σ β} {s s₁ s' : σ}

/-- No fuel is needed. -/
theorem of_forall {r : Result α} (h : ∀ n, x n s = (r.out, s')) : Ends x s r s' :=
  ⟨0, fun m _ => h m⟩

/-- **A sequence ends part by part.** -/
theorem bind {a : α} {r : Result β} (h : Ends x s (.value a) s₁) (hf : Ends (f · a) s₁ r s') :
    Ends (fun n => x n >>= f n) s r s' := by
  obtain ⟨n, hn⟩ := h
  obtain ⟨k, hk⟩ := hf
  refine ⟨max n k, fun m hm => ?_⟩
  have hf := Comp.bind_of_ok (hn m (by omega)) (f m)
  exact hf.trans (hk m (by omega))

/-- With a unit of fuel spent first. -/
theorem succ {y : ℕ → Comp σ α} {r : Result α} (h : Ends x s r s') (hy : ∀ n, y (n + 1) = x n) :
    Ends y s r s' := by
  obtain ⟨n, hn⟩ := h
  refine ⟨n + 1, fun m hm => ?_⟩
  obtain ⟨k, rfl⟩ : ∃ k, m = k + 1 := ⟨m - 1, by omega⟩
  rw [hy]
  exact hn k (by omega)

/-- There is one result. -/
theorem unique {r r' : Result α} {t : σ} (h : Ends x s r s') (h' : Ends x s r' t) :
    r = r' ∧ s' = t := by
  obtain ⟨n, hn⟩ := h
  obtain ⟨k, hk⟩ := h'
  have heq := (hn (max n k) (by omega)).symm.trans (hk (max n k) (by omega))
  exact ⟨Result.out_inj (Prod.ext_iff.1 heq).1, (Prod.ext_iff.1 heq).2⟩

end Ends

/-! ### Partial correctness -/

/-- Whatever value the computation returns meets `Q`, and its errors are of the kind `E`. -/
def Yields (Q : α → Prop) (E : String → Prop) (x : Comp σ α) : Prop :=
  ∀ s, (∀ a, (x s).1 = .ok a → Q a) ∧ ∀ msg, (x s).1 = .err msg → E msg

namespace Yields

variable {Q Q' : α → Prop} {E : String → Prop}

theorem pure {a : α} (h : Q a) : Yields Q E (Pure.pure a : Comp σ α) := fun _ =>
  ⟨fun _ ha => Out.ok.inj ha ▸ h, nofun⟩

theorem err {msg : String} (h : E msg) : Yields Q E (Comp.err msg : Comp σ α) := fun _ =>
  ⟨nofun, fun _ hmsg => Out.err.inj hmsg ▸ h⟩

theorem more : Yields Q E (Comp.more : Comp σ α) := fun _ => ⟨nofun, nofun⟩

theorem mono {x : Comp σ α} (h : Yields Q E x) (hq : ∀ a, Q a → Q' a) : Yields Q' E x :=
  fun s => ⟨fun a ha => hq a ((h s).1 a ha), (h s).2⟩

/-- **Sequences yield part by part.** -/
theorem bind {x : Comp σ α} {f : α → Comp σ β} {R : β → Prop} (h : Yields Q E x)
    (hf : ∀ a, Q a → Yields R E (f a)) : Yields R E (x >>= f) := by
  intro s
  have hx := h s
  rw [Comp.bind_apply]
  rcases hxs : x s with ⟨o, s₁⟩
  rw [hxs] at hx
  cases o with
  | ok a => exact hf a (hx.1 a rfl) s₁
  | err msg => exact ⟨nofun, fun msg' hmsg => Out.err.inj hmsg ▸ hx.2 msg rfl⟩
  | panic => exact ⟨nofun, nofun⟩
  | more => exact ⟨nofun, nofun⟩

end Yields

end Computations
