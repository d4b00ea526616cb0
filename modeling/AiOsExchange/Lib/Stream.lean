/-
# Computations that read a stream

Part of the state of a computation is a stream of inputs that it takes from one after the other.
`Consumes` says that it takes some number of them, that the rest is left for whoever comes next,
and that nothing it does depends on that rest.  Sequences consume part by part
(`Consumes.bind`), which needs of the stream only that it can be read and replaced (`Input`).
-/

import AiOsExchange.Lib.Comp

namespace Computations

universe u

variable {σ τ α β : Type u}

/-- Where the stream of inputs is in a state. -/
structure Input (σ τ : Type u) where
  stream : σ → ℕ → τ
  feed : (ℕ → τ) → σ → σ
  feed_stream : ∀ s, feed (stream s) s = s
  stream_feed : ∀ net s, stream (feed net s) = net

/-- The stream after its first `k` elements. -/
def later (k : ℕ) (net : ℕ → τ) : ℕ → τ := fun n => net (n + k)

theorem later_later (j k : ℕ) (net : ℕ → τ) : later j (later k net) = later (j + k) net := by
  funext n
  rw [later, later, later, Nat.add_assoc]

/-- The computation takes the first elements of its stream and depends on no others. -/
def Consumes (I : Input σ τ) (x : Comp σ α) : Prop :=
  ∀ s, ∃ k, ∀ net, (∀ i < k, net i = I.stream s i) →
    x (I.feed net s) = ((x s).1, I.feed (later k net) (x s).2)

namespace Consumes

variable {I : Input σ τ}

/-- A computation that does not look at the stream. -/
theorem of_feed {x : Comp σ α}
    (h : ∀ net s, x (I.feed net s) = ((x s).1, I.feed net (x s).2)) : Consumes I x :=
  fun s => ⟨0, fun net _ => h net s⟩

/-- **Sequences consume part by part.** -/
theorem bind {x : Comp σ α} {f : α → Comp σ β} (h : Consumes I x) (hf : ∀ a, Consumes I (f a)) :
    Consumes I (x >>= f) := by
  intro s
  obtain ⟨k, hk⟩ := h s
  -- the stream the second part finds is what the first left
  have hself := hk (I.stream s) fun _ _ => rfl
  rw [I.feed_stream] at hself
  have hleft : I.stream (x s).2 = later k (I.stream s) := by
    rw [(Prod.ext_iff.1 hself).2, I.stream_feed]
  rcases hx : x s with ⟨o, s₁⟩
  rw [hx] at hk hleft
  have hstop (ho : ∀ a, o ≠ .ok a) : ∃ k, ∀ net, (∀ i < k, net i = I.stream s i) →
      (x >>= f) (I.feed net s) = (((x >>= f) s).1, I.feed (later k net) ((x >>= f) s).2) := by
    refine ⟨k, fun net hnet => ?_⟩
    rw [Comp.bind_apply, Comp.bind_apply, hk net hnet, hx]
    cases o with
    | ok a => exact absurd rfl (ho a)
    | err msg => rfl
    | panic => rfl
    | more => rfl
  cases o with
  | ok a =>
      obtain ⟨j, hj⟩ := hf a s₁
      refine ⟨j + k, fun net hnet => ?_⟩
      rw [Comp.bind_of_ok (hk net fun i hi => hnet i (by omega)), Comp.bind_of_ok hx,
        hj (later k net) fun i hi => ?_, later_later]
      rw [hleft, later, later]
      exact hnet (i + k) (by omega)
  | err msg => exact hstop nofun
  | panic => exact hstop nofun
  | more => exact hstop nofun

theorem congruence (I : Input σ τ) : Congruence fun _ (x _y : Comp σ _) => Consumes I x where
  pure _ := .of_feed fun _ _ => rfl
  err _ := .of_feed fun _ _ => rfl
  bind := Consumes.bind

end Consumes

end Computations
