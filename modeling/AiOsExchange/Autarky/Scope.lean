/-
# Bound names do not matter

`VirtualMachine::evaluate` of `autarky_vm/src/vm.rs` on two programs that differ in the names
they bind (`Alpha`).  Two names stand for one thing if they are bound in the same place, and
else if they are equal.  `POLL` is read from the network before the environment is looked at:
nothing binds it.  The name of a `let rec` is in scope in the value it binds only where that is
a lambda, since any other value is evaluated before the name is bound.

Two places of the machine look at the name of a `let rec` rather than at what it is bound to:

| the machine | what it takes |
| --- | --- |
| inserts a closure under its own name over its parameter | no use of a parameter of that name |
| gives every closure that a `let rec` binds that name | no use of it, nor of the former one |

The first is a property of a program (`Tidy`), the second of a run: a run is watched for a
`let rec` that binds such a function from elsewhere (`watched`).  Under these conditions the
two programs end alike at every depth of the recursion (`renaming_kept`).  Closures are related
if their bodies are renamed and the environments they took along hold related values
(`ValRel`).
-/

import AiOsExchange.Autarky.Vm
import Mathlib.Logic.Basic

namespace AiOsExchange
namespace Autarky

open Computations

/-! ### Renaming -/

/-- Names correspond under a binder that is `a` on one side and `b` on the other. -/
def shadow (K : Word → Word → Prop) (a b : Word) : Word → Word → Prop := fun x y =>
  x = a ∧ y = b ∨ x ≠ a ∧ y ≠ b ∧ K x y

/-- The parameter of a lambda. -/
def IrNode.parameter : IrNode → Option Word
  | .lambda param _ => some param
  | _ => none

/-- **Renaming of bound variables**: the programs are the same but for the names they bind, and
free names correspond by `K`.  Reserved words are never bound. -/
inductive Alpha (reserved : Word → Prop) : (Word → Word → Prop) → IrNode → IrNode → Prop
  | intLiteral {K} (n : Int64) : Alpha reserved K (.intLiteral n) (.intLiteral n)
  | floatLiteral {K} (f : F64) : Alpha reserved K (.floatLiteral f) (.floatLiteral f)
  | var {K x y} (h : reserved x ∧ x = y ∨ ¬ reserved x ∧ ¬ reserved y ∧ K x y) :
      Alpha reserved K (.var x) (.var y)
  | bin {K l l' r r'} (op : BinOp) (hl : Alpha reserved K l l') (hr : Alpha reserved K r r') :
      Alpha reserved K (.bin op l r) (.bin op l' r')
  | pair {K l l' r r'} (hl : Alpha reserved K l l') (hr : Alpha reserved K r r') :
      Alpha reserved K (.pair l r) (.pair l' r')
  | left {K v v'} (hv : Alpha reserved K v v') : Alpha reserved K (.left v) (.left v')
  | right {K v v'} (hv : Alpha reserved K v v') : Alpha reserved K (.right v) (.right v')
  | lambda {K p p' b b'} (hb : Alpha reserved (shadow K p p') b b') :
      Alpha reserved K (.lambda p b) (.lambda p' b')
  | app {K f f' a a'} (hf : Alpha reserved K f f') (ha : Alpha reserved K a a') :
      Alpha reserved K (.app f a) (.app f' a')
  | matchE {K e e' x x' l l' y y' r r'} (he : Alpha reserved K e e')
      (hl : Alpha reserved (shadow K x x') l l') (hr : Alpha reserved (shadow K y y') r r') :
      Alpha reserved K (.matchE e x l y r) (.matchE e' x' l' y' r')
  | letE {K x x' v v' b b'} (hv : Alpha reserved K v v')
      (hb : Alpha reserved (shadow K x x') b b') :
      Alpha reserved K (.letE x v b) (.letE x' v' b')
  | letRecFun {K x x' p p' e e' b b'} (he : Alpha reserved (shadow (shadow K x x') p p') e e')
      (hb : Alpha reserved (shadow K x x') b b') :
      Alpha reserved K (.letRec x (.lambda p e) b) (.letRec x' (.lambda p' e') b')
  | letRecVal {K x x' v v' b b'} (hp : v.parameter = none) (hp' : v'.parameter = none)
      (hv : Alpha reserved K v v') (hb : Alpha reserved (shadow K x x') b b') :
      Alpha reserved K (.letRec x v b) (.letRec x' v' b')
  | unpack {K a a' b b' p p' e e'} (hp : Alpha reserved K p p')
      (he : Alpha reserved (shadow (shadow K a a') b b') e e') :
      Alpha reserved K (.unpack a b p e) (.unpack a' b' p' e')

/-- The name occurs free. -/
def IrNode.mentions (x : Word) : IrNode → Bool
  | .intLiteral _ | .floatLiteral _ => false
  | .var y => x = y
  | .bin _ l r | .pair l r | .app l r => l.mentions x || r.mentions x
  | .left v | .right v => v.mentions x
  | .lambda p b => x ≠ p && b.mentions x
  | .matchE e y l z r => e.mentions x || x ≠ y && l.mentions x || x ≠ z && r.mentions x
  | .letE y v b => v.mentions x || x ≠ y && b.mentions x
  | .letRec y v b =>
      v.mentions x && (v.parameter.isNone || x ≠ y) || x ≠ y && b.mentions x
  | .unpack a b p e => p.mentions x || x ≠ a && x ≠ b && e.mentions x

/-- A lambda that uses a parameter of this name. -/
def IrNode.Takes (x : Word) (v : IrNode) : Prop := ∃ e, v = .lambda x e ∧ e.mentions x

/-- No function of a `let rec` uses a parameter of its own name. -/
def IrNode.Tidy : IrNode → Prop
  | .intLiteral _ | .floatLiteral _ | .var _ => True
  | .bin _ l r | .pair l r | .app l r => l.Tidy ∧ r.Tidy
  | .left v | .right v => v.Tidy
  | .lambda _ b => b.Tidy
  | .matchE e _ l _ r => e.Tidy ∧ l.Tidy ∧ r.Tidy
  | .letE _ v b => v.Tidy ∧ b.Tidy
  | .letRec x v b => ¬ v.Takes x ∧ v.Tidy ∧ b.Tidy
  | .unpack _ _ p e => p.Tidy ∧ e.Tidy

/-- The closures in a value have tidy bodies. -/
inductive Value.Tidy : Value → Prop
  | int (n : Int64) : Tidy (.int n)
  | float (f : F64) : Tidy (.float f)
  | pair {l r : Value} (hl : Tidy l) (hr : Tidy r) : Tidy (.pair l r)
  | left {v : Value} (hv : Tidy v) : Tidy (.left v)
  | right {v : Value} (hv : Tidy v) : Tidy (.right v)
  | closure {p : Word} {body : IrNode} {env : Env} {recName : Option Word} (hbody : body.Tidy)
      (henv : ∀ x v, env.get x = some v → Tidy v) : Tidy (.closure p body env recName)

section
variable {reserved : Word → Prop} {K K' : Word → Word → Prop} {e e' : IrNode}
  {a a' b b' x x' : Word}

theorem shadow_mono {x y : Word} (h : x ≠ a → y ≠ b → K x y → K' x y) (hk : shadow K a b x y) :
    shadow K' a b x y := by
  obtain hab | ⟨hx, hy, hk⟩ := hk
  · exact .inl hab
  · exact .inr ⟨hx, hy, h hx hy hk⟩

/-- **Only names that occur matter.** -/
theorem Alpha.mono (h : Alpha reserved K e e')
    (hk : ∀ x y, e.mentions x → e'.mentions y → K x y → K' x y) : Alpha reserved K' e e' := by
  induction h generalizing K' with
  | intLiteral n => exact .intLiteral n
  | floatLiteral f => exact .floatLiteral f
  | var h =>
      obtain hr | ⟨hx, hy, h⟩ := h
      · exact .var (.inl hr)
      · refine .var (.inr ⟨hx, hy, hk _ _ ?_ ?_ h⟩) <;> simp [IrNode.mentions]
  | bin op _ _ ihl ihr =>
      refine .bin op (ihl fun x y hx hy => hk x y ?_ ?_) (ihr fun x y hx hy => hk x y ?_ ?_) <;>
        simp [IrNode.mentions, hx, hy]
  | pair _ _ ihl ihr =>
      refine .pair (ihl fun x y hx hy => hk x y ?_ ?_) (ihr fun x y hx hy => hk x y ?_ ?_) <;>
        simp [IrNode.mentions, hx, hy]
  | app _ _ ihf iha =>
      refine .app (ihf fun x y hx hy => hk x y ?_ ?_) (iha fun x y hx hy => hk x y ?_ ?_) <;>
        simp [IrNode.mentions, hx, hy]
  | left _ ih => exact .left (ih hk)
  | right _ ih => exact .right (ih hk)
  | lambda _ ih =>
      refine .lambda (ih fun x y hx hy => shadow_mono fun hxp hyp => hk x y ?_ ?_) <;>
        simp [IrNode.mentions, *]
  | matchE _ _ _ ihe ihl ihr =>
      refine .matchE (ihe fun x y hx hy => hk x y ?_ ?_)
        (ihl fun x y hx hy => shadow_mono fun hxl hyl => hk x y ?_ ?_)
        (ihr fun x y hx hy => shadow_mono fun hxr hyr => hk x y ?_ ?_) <;>
        simp [IrNode.mentions, *]
  | letE _ _ ihv ihb =>
      refine .letE (ihv fun x y hx hy => hk x y ?_ ?_)
        (ihb fun x y hx hy => shadow_mono fun hxv hyv => hk x y ?_ ?_) <;>
        simp [IrNode.mentions, *]
  | letRecFun _ _ ihe ihb =>
      refine .letRecFun
        (ihe fun x y hx hy => shadow_mono fun hxp hyp => shadow_mono fun hxv hyv => hk x y ?_ ?_)
        (ihb fun x y hx hy => shadow_mono fun hxv hyv => hk x y ?_ ?_) <;>
        simp [IrNode.mentions, *]
  | letRecVal hp hp' _ _ ihv ihb =>
      refine .letRecVal hp hp' (ihv fun x y hx hy => hk x y ?_ ?_)
        (ihb fun x y hx hy => shadow_mono fun hxv hyv => hk x y ?_ ?_) <;>
        simp [IrNode.mentions, *]
  | unpack _ _ ihp ihe =>
      refine .unpack (ihp fun x y hx hy => hk x y ?_ ?_)
        (ihe fun x y hx hy => shadow_mono fun hxb hyb => shadow_mono fun hxa hya => hk x y ?_ ?_) <;>
        simp [IrNode.mentions, *]

/-- A binder that is not used. -/
theorem Alpha.under (h : Alpha reserved K e e') (hx : ¬ e.mentions x) (hx' : ¬ e'.mentions x') :
    Alpha reserved (shadow K x x') e e' := by
  refine h.mono fun y y' hy hy' hk => .inr ⟨?_, ?_, hk⟩
  · rintro rfl
    exact hx hy
  · rintro rfl
    exact hx' hy'

theorem Alpha.drop (h : Alpha reserved (shadow K x x') e e') (hx : ¬ e.mentions x) :
    Alpha reserved K e e' := by
  refine h.mono fun y y' hy hy' hk => ?_
  rcases hk with ⟨rfl, rfl⟩ | ⟨-, -, hk⟩
  · exact absurd hy hx
  · exact hk

/-- **Binders may be exchanged**, unless one of them hides a use of the other. -/
theorem Alpha.exchange (h : Alpha reserved (shadow (shadow K a a') b b') e e')
    (ha : b = a → ¬ e.mentions b) (ha' : b' = a' → ¬ e'.mentions b') :
    Alpha reserved (shadow (shadow K b b') a a') e e' := by
  refine h.mono fun y y' hy hy' hk => ?_
  rcases hk with ⟨rfl, rfl⟩ | ⟨hyb, hyb', hk⟩
  · exact .inr ⟨fun hya => ha hya hy, fun hya => ha' hya hy', .inl ⟨rfl, rfl⟩⟩
  · exact shadow_mono (fun _ _ hk => .inr ⟨hyb, hyb', hk⟩) hk

/-- A binder that keeps its name. -/
theorem shadow_eq (a : Word) : shadow Eq a a = Eq := by
  funext x y
  apply propext
  constructor
  · rintro (⟨rfl, rfl⟩ | ⟨-, -, rfl⟩) <;> rfl
  · rintro rfl
    by_cases hx : x = a
    · exact .inl ⟨hx, hx⟩
    · exact .inr ⟨hx, hx, rfl⟩

/-- A program is a renaming of itself. -/
theorem Alpha.refl (node : IrNode) : Alpha reserved Eq node node := by
  induction node with
  | intLiteral n => exact .intLiteral n
  | floatLiteral f => exact .floatLiteral f
  | var x =>
      by_cases hx : reserved x
      · exact .var (.inl ⟨hx, rfl⟩)
      · exact .var (.inr ⟨hx, hx, rfl⟩)
  | bin op l r ihl ihr => exact .bin op ihl ihr
  | lambda p b ih => exact .lambda (by rwa [shadow_eq])
  | app f a ihf iha => exact .app ihf iha
  | pair l r ihl ihr => exact .pair ihl ihr
  | unpack a b p e ihp ihe => exact .unpack ihp (by rwa [shadow_eq, shadow_eq])
  | left v ih => exact .left ih
  | right v ih => exact .right ih
  | matchE e x l y r ihe ihl ihr =>
      exact .matchE ihe (by rwa [shadow_eq]) (by rwa [shadow_eq])
  | letE x v b ihv ihb => exact .letE ihv (by rwa [shadow_eq])
  | letRec x v b ihv ihb =>
      cases hp : v.parameter with
      | none => exact .letRecVal hp hp ihv (by rwa [shadow_eq])
      | some p =>
          cases v with
          | lambda p e =>
              cases ihv with
              | lambda he =>
                  rw [shadow_eq] at he
                  exact .letRecFun (by rwa [shadow_eq, shadow_eq]) (by rwa [shadow_eq])
          | _ => cases hp

end

/-! ### Watching a run -/

/-- A `let rec` would bind a function from elsewhere that uses the name it gets or had. -/
def bindsForeign (var : Word) (val : IrNode) : Value → Bool
  | .closure _ body _ recName =>
      val.parameter.isNone && (body.mentions var || recName.any fun r => body.mentions r)
  | _ => false

section
variable {σ : Type} (M : Machine σ)

/-- A machine beside a flag. -/
def Machine.beside : Machine (σ × Bool) where
  poll := Computations.beside M.poll
  call := Computations.beside M.call
  div a b := Computations.beside (M.div a b)

/-- One level of `evaluate`, raising the flag at a `let rec` that binds a function from
elsewhere. -/
def watchedStep (rec : Env → IrNode → Comp (σ × Bool) Value) (env : Env) :
    IrNode → Comp (σ × Bool) Value
  | .letRec var val body => do
      let v ← rec env val
      raise (bindsForeign var val v)
      rec (env.insert var (tagRec var v)) body
  | node => evaluateStep M.beside rec env node

/-- `evaluate` with the flag. -/
def watchedWith : ℕ → Env → IrNode → Comp (σ × Bool) Value
  | 0, _, _ => .more
  | fuel + 1, env, node => do
      M.beside.call
      watchedStep M (watchedWith fuel) env node

end

/-- The flag is raised in the evaluation of a program. -/
def watched (fuel : ℕ) (env : Env) (node : IrNode) (net : Net) : Bool :=
  (watchedWith netMachine fuel env node (net, false)).2.2

/-- One level of `evaluate`, raising the flag at every `let rec` of which `F` says so. -/
def flaggedStep {σ : Type} (F : Word → IrNode → Value → Bool) (M : Machine σ)
    (rec : Env → IrNode → Comp (σ × Bool) Value) (env : Env) : IrNode → Comp (σ × Bool) Value
  | .letRec var val body => do
      let v ← rec env val
      raise (F var val v)
      rec (env.insert var (tagRec var v)) body
  | node => evaluateStep M.beside rec env node

/-- `evaluate` with the flag that `F` raises. -/
def flaggedWith {σ : Type} (F : Word → IrNode → Value → Bool) (M : Machine σ) :
    ℕ → Env → IrNode → Comp (σ × Bool) Value
  | 0, _, _ => .more
  | fuel + 1, env, node => do
      M.beside.call
      flaggedStep F M (flaggedWith F M fuel) env node

section
variable {σ : Type} {M : Machine σ} {F : Word → IrNode → Value → Bool}

theorem beside_rel : MachineRel (fun _ (x _y : Comp (σ × Bool) _) => Stays x) M.beside M.beside :=
  ⟨.beside _, .beside _, fun _ _ _ => .beside _⟩

theorem evaluateStep_stays {rec : Env → IrNode → Comp (σ × Bool) Value}
    (h : ∀ env node, Stays (rec env node)) (env : Env) (node : IrNode) :
    Stays (evaluateStep M.beside rec env node) :=
  @evaluateStep_congr _ _ _ M.beside M.beside Stays.congruence beside_rel rec rec h env node

/-- A raised flag stays. -/
theorem flaggedStep_stays {rec : Env → IrNode → Comp (σ × Bool) Value}
    (h : ∀ env node, Stays (rec env node)) (env : Env) (node : IrNode) :
    Stays (flaggedStep F M rec env node) := by
  have hstep : Stays (evaluateStep M.beside rec env node) := evaluateStep_stays h env node
  cases node with
  | letRec var val body =>
      exact (h env val).bind fun v => (Stays.raise _).bind fun _ => h _ body
  | _ => exact hstep

section
variable {rec : Env → IrNode → Comp (σ × Bool) Value} (h : ∀ env node, Stays (rec env node))
include h

theorem app_stays (f a : Value) : Stays (match f with
    | .closure param body env recName => rec (applyEnv f a param env recName) body
    | _ => .err "App on non-closure") := by
  cases f with
  | closure param body env recName => exact h _ _
  | _ => exact fun _ => rfl

theorem match_stays (env : Env) (x y : Word) (l r : IrNode) (v : Value) : Stays (match v with
    | .left v => rec (env.insert x v) l
    | .right v => rec (env.insert y v) r
    | _ => .err "Match scrutinee must be Either") := by
  cases v with
  | left v => exact h _ _
  | right v => exact h _ _
  | _ => exact fun _ => rfl

theorem unpack_stays (env : Env) (a b : Word) (e : IrNode) (v : Value) : Stays (match v with
    | .pair l r => rec ((env.insert a l).insert b r) e
    | _ => .err "Unpack requires Pair") := by
  cases v with
  | pair l r => exact h _ _
  | _ => exact fun _ => rfl

end

theorem flaggedWith_stays (fuel : ℕ) (env : Env) (node : IrNode) :
    Stays (flaggedWith F M fuel env node) := by
  induction fuel generalizing env node with
  | zero => exact fun _ => rfl
  | succ fuel ih => exact (Stays.beside _).bind fun _ => flaggedStep_stays ih env node

theorem beside_sim {α : Type} (x : Comp σ α) :
    Sim (fun s (t : σ × Bool) => t.1 = s) x (Computations.beside x) := by
  rintro s t rfl
  exact ⟨rfl, rfl⟩

/-- **A flag does not change an evaluation.** -/
theorem flaggedWith_sim (fuel : ℕ) (env : Env) (node : IrNode) :
    Sim (fun s (t : σ × Bool) => t.1 = s) (evaluateWith M fuel env node)
      (flaggedWith F M fuel env node) := by
  have hM : MachineRel (fun _ x y => Sim (fun s (t : σ × Bool) => t.1 = s) x y) M M.beside :=
    ⟨beside_sim _, beside_sim _, fun _ _ _ => beside_sim _⟩
  induction fuel generalizing env node with
  | zero => exact .more
  | succ fuel ih =>
      refine (beside_sim _).bind fun _ => ?_
      have hstep := evaluateStep_congr (Sim.congruence _) hM ih env node
      cases node with
      | letRec var val body =>
          refine (ih env val).bind fun v => ?_
          rintro s t rfl
          exact ih _ body _ _ rfl
      | _ => exact hstep

/-- Watching is one such flag. -/
theorem watchedStep_eq (rec : Env → IrNode → Comp (σ × Bool) Value) (env : Env) (node : IrNode) :
    watchedStep M rec env node = flaggedStep bindsForeign M rec env node := by
  cases node <;> rfl

theorem watchedWith_eq (fuel : ℕ) (env : Env) (node : IrNode) :
    watchedWith M fuel env node = flaggedWith bindsForeign M fuel env node := by
  have hrec : watchedWith M fuel = flaggedWith bindsForeign M fuel := by
    induction fuel with
    | zero => rfl
    | succ fuel ih =>
        funext env node
        rw [watchedWith, flaggedWith, ih]
        simp only [watchedStep_eq]
  rw [hrec]

theorem watchedStep_stays {rec : Env → IrNode → Comp (σ × Bool) Value}
    (h : ∀ env node, Stays (rec env node)) (env : Env) (node : IrNode) :
    Stays (watchedStep M rec env node) := by
  rw [watchedStep_eq]
  exact flaggedStep_stays h env node

theorem watchedWith_stays (fuel : ℕ) (env : Env) (node : IrNode) :
    Stays (watchedWith M fuel env node) := by
  rw [watchedWith_eq]
  exact flaggedWith_stays fuel env node

/-- **Watching does not change an evaluation.** -/
theorem watchedWith_sim (fuel : ℕ) (env : Env) (node : IrNode) :
    Sim (fun s (t : σ × Bool) => t.1 = s) (evaluateWith M fuel env node)
      (watchedWith M fuel env node) := by
  rw [watchedWith_eq]
  exact flaggedWith_sim fuel env node

end

/-! ### Related values -/

mutual

/-- Values that are the same but for the names bound in closures. -/
inductive ValRel (reserved : Word → Prop) : Value → Value → Prop
  | int (n : Int64) : ValRel reserved (.int n) (.int n)
  | float (f : F64) : ValRel reserved (.float f) (.float f)
  | pair {l l' r r' : Value} (hl : ValRel reserved l l') (hr : ValRel reserved r r') :
      ValRel reserved (.pair l r) (.pair l' r')
  | left {v v' : Value} (hv : ValRel reserved v v') : ValRel reserved (.left v) (.left v')
  | right {v v' : Value} (hv : ValRel reserved v v') : ValRel reserved (.right v) (.right v')
  | closure {K : Word → Word → Prop} {p p' : Word} {body body' : IrNode} {env env' : Env}
      (hbody : Alpha reserved (shadow K p p') body body') (ht : body.Tidy) (ht' : body'.Tidy)
      (henv : EnvRel reserved K env env') :
      ValRel reserved (.closure p body env none) (.closure p' body' env' none)
  | recClosure {K : Word → Word → Prop} {p p' x x' : Word} {body body' : IrNode} {env env' : Env}
      (hbody : Alpha reserved (shadow (shadow K p p') x x') body body') (ht : body.Tidy)
      (ht' : body'.Tidy) (henv : EnvRel reserved K env env') :
      ValRel reserved (.closure p body env (some x)) (.closure p' body' env' (some x'))

/-- Environments that have related values for the names that correspond. -/
inductive EnvRel (reserved : Word → Prop) : (Word → Word → Prop) → Env → Env → Prop
  | intro {K : Word → Word → Prop} {env env' : Env}
      (unbound : ∀ x y, K x y → (env.get x = none ↔ env'.get y = none))
      (bound : ∀ x y v v', K x y → env.get x = some v → env'.get y = some v' →
        ValRel reserved v v') :
      EnvRel reserved K env env'

end

section
variable {reserved : Word → Prop} {K : Word → Word → Prop} {env env' : Env} {a b x x' : Word}
  {v v' : Value}

theorem Env.get_insert : (Env.insert a v env).get x = if x = a then some v else env.get x := by
  rw [Env.get, Env.insert, List.lookup_cons]
  split_ifs with h
  · rw [beq_iff_eq.2 h]
  · rw [beq_eq_false_iff_ne.2 h]
    rfl

/-- **Under a binder environments stay related.** -/
theorem EnvRel.insert (h : EnvRel reserved K env env') (hv : ValRel reserved v v') :
    EnvRel reserved (shadow K a b) (env.insert a v) (env'.insert b v') := by
  obtain ⟨unbound, bound⟩ := h
  refine .intro ?_ ?_
  · rintro x y (⟨rfl, rfl⟩ | ⟨hx, hy, hxy⟩)
    · simp only [Env.get_insert, if_true]
      exact iff_of_false (by simp) (by simp)
    · rw [Env.get_insert, Env.get_insert, if_neg hx, if_neg hy]
      exact unbound x y hxy
  · rintro x y w w' (⟨rfl, rfl⟩ | ⟨hx, hy, hxy⟩) hw hw'
    · rw [Env.get_insert, if_pos rfl] at hw hw'
      obtain rfl := Option.some.inj hw
      obtain rfl := Option.some.inj hw'
      exact hv
    · rw [Env.get_insert, if_neg hx] at hw
      rw [Env.get_insert, if_neg hy] at hw'
      exact bound x y w w' hxy hw hw'

/-- An environment of values that are related to themselves. -/
theorem EnvRel.refl (h : ∀ x v, env.get x = some v → ValRel reserved v v) :
    EnvRel reserved Eq env env := by
  refine .intro ?_ ?_
  · rintro x y rfl
    rfl
  · rintro x y v v' rfl hv hv'
    obtain rfl := Option.some.inj (hv.symm.trans hv')
    exact h x v hv

/-- A tidy value is related to itself. -/
theorem Value.Tidy.rel (h : v.Tidy) : ValRel reserved v v := by
  induction h with
  | int n => exact .int n
  | float f => exact .float f
  | pair hl hr ihl ihr => exact .pair ihl ihr
  | left hv ih => exact .left ih
  | right hv ih => exact .right ih
  | @closure p body env recName hbody henv ih =>
      cases recName with
      | none => exact .closure (by rw [shadow_eq]; exact .refl body) hbody hbody (.refl ih)
      | some x =>
          refine .recClosure ?_ hbody hbody (.refl ih)
          rw [shadow_eq, shadow_eq]
          exact .refl body

/-- **A closure of a `let rec`** is related to the one of the renamed `let rec`. -/
theorem tagRec_rel {p p' : Word} {e e' : IrNode}
    (he : Alpha reserved (shadow (shadow K x x') p p') e e') (ht : e.Tidy) (ht' : e'.Tidy)
    (hx : ¬ (IrNode.lambda p e).Takes x) (hx' : ¬ (IrNode.lambda p' e').Takes x')
    (henv : EnvRel reserved K env env') :
    ValRel reserved (tagRec x (.closure p e env none)) (tagRec x' (.closure p' e' env' none)) := by
  refine .recClosure (he.exchange ?_ ?_) ht ht' henv
  · rintro rfl hp
    exact hx ⟨e, rfl, hp⟩
  · rintro rfl hp
    exact hx' ⟨e', rfl, hp⟩

/-- What a `let rec` binds without raising the flag stays related. -/
theorem tagRec_foreign {val val' : IrNode} (h : ValRel reserved v v')
    (hval : val.parameter = none) (hval' : val'.parameter = none)
    (hf : bindsForeign x val v = false) (hf' : bindsForeign x' val' v' = false) :
    ValRel reserved (tagRec x v) (tagRec x' v') := by
  cases h with
  | int n => exact .int n
  | float f => exact .float f
  | pair hl hr => exact .pair hl hr
  | left hv => exact .left hv
  | right hv => exact .right hv
  | closure hbody ht ht' henv =>
      simp only [bindsForeign, hval, hval', Option.isNone_none, Option.any_none, Bool.true_and,
        Bool.or_false, Bool.eq_false_iff] at hf hf'
      exact .recClosure (hbody.under hf hf') ht ht' henv
  | recClosure hbody ht ht' henv =>
      simp only [bindsForeign, hval, hval', Option.isNone_none, Option.any_some, Bool.true_and,
        Bool.or_eq_false_iff] at hf hf'
      obtain ⟨hx, hr⟩ := hf
      refine .recClosure ((hbody.drop ?_).under ?_ ?_) ht ht' henv
      · exact Bool.eq_false_iff.1 hr
      · exact Bool.eq_false_iff.1 hx
      · exact Bool.eq_false_iff.1 hf'.1

end

/-! ### Two runs side by side -/

section
variable {σ : Type} {M : Machine σ}

theorem verdict_rel (reserved : Word → Prop) (c : Bool) :
    ValRel reserved (verdict c) (verdict c) := by
  cases c
  · exact .right (.int 0)
  · exact .left (.int 0)

theorem BinOp.onValues_stays (op : BinOp) (v w : Value) : Stays (op.onValues M.beside v w) :=
  @BinOp.onValues_congr _ _ _ M.beside M.beside Stays.congruence beside_rel op v w

/-- An operator on two integers ends like itself. -/
theorem BinOp.apply_self {R : Value → Value → Prop} (hint : ∀ n, R (.int n) (.int n))
    (hverdict : ∀ c, R (verdict c) (verdict c)) (op : BinOp) (a b : Int64) :
    SimUnless R (op.apply M.beside a b) (op.apply M.beside a b) := by
  cases op with
  | div =>
      by_cases hb : b = 0
      · simp only [BinOp.apply, if_pos hb]
        exact .err _ _
      · simp only [BinOp.apply, if_neg hb]
        refine (SimUnless.of_beside (R := Eq) (fun _ => rfl) (M.div a b)).bind
          (fun _ _ => rfl) (fun _ _ => rfl) ?_
        rintro q _ rfl
        exact .pure (hint q)
  | add | sub | mul => exact .pure (hint _)
  | eq | gt | lt | ge | le => exact .pure (hverdict _)

/-- An operator takes related values alike. -/
theorem BinOp.onValues_rel {reserved : Word → Prop} (op : BinOp) {v v' w w' : Value}
    (hv : ValRel reserved v v') (hw : ValRel reserved w w') :
    SimUnless (ValRel reserved) (op.onValues M.beside v w) (op.onValues M.beside v' w') := by
  cases hv with
  | int a =>
      cases hw with
      | int b => exact op.apply_self .int (verdict_rel reserved) a b
      | _ => exact .err _ _
  | _ => exact .err _ _

/-- The word that the machine reads from the network. -/
def IsPoll (x : Word) : Prop := x = "POLL".toList

instance : DecidablePred IsPoll := fun x => inferInstanceAs (Decidable (x = "POLL".toList))

/-- A variable is looked up, or `POLL` read. -/
theorem varStep_rel (rec rec' : Env → IrNode → Comp (σ × Bool) Value)
    {K : Word → Word → Prop} {env env' : Env} {x y : Word}
    (h : IsPoll x ∧ x = y ∨ ¬ IsPoll x ∧ ¬ IsPoll y ∧ K x y) (henv : EnvRel IsPoll K env env') :
    SimUnless (ValRel IsPoll) (evaluateStep M.beside rec env (.var x))
      (evaluateStep M.beside rec' env' (.var y)) := by
  simp only [evaluateStep]
  rcases h with ⟨hx, rfl⟩ | ⟨hx, hy, hxy⟩
  · rw [IsPoll] at hx
    rw [if_pos hx, if_pos hx]
    refine (SimUnless.of_beside (R := Eq) (fun _ => rfl) M.poll).bind (fun _ _ => rfl)
      (fun _ _ => rfl) ?_
    rintro v _ rfl
    exact .pure (.int _)
  · obtain ⟨unbound, bound⟩ := henv
    rw [IsPoll] at hx hy
    rw [if_neg hx, if_neg hy]
    cases hv : env.get x with
    | none =>
        rw [(unbound x y hxy).1 hv]
        exact .err _ _
    | some v =>
        cases hv' : env'.get y with
        | none =>
            rw [(unbound x y hxy).2 hv'] at hv
            cases hv
        | some v' => exact .pure (bound x y v v' hxy hv hv')

/-- The value of a lambda is a closure, as long as there is fuel. -/
theorem watchedWith_lambda (fuel : ℕ) (p p' : Word) (f f' : IrNode) (env env' : Env) :
    SimUnless (fun v v' => v = .closure p f env none ∧ v' = .closure p' f' env' none)
      (watchedWith M fuel env (.lambda p f)) (watchedWith M fuel env' (.lambda p' f')) := by
  cases fuel with
  | zero => exact .more
  | succ fuel =>
      exact (SimUnless.of_beside (R := Eq) (fun _ => rfl) M.call).bind (fun _ _ => rfl)
        (fun _ _ => rfl) fun _ _ _ => .pure ⟨rfl, rfl⟩

/-- **Renamed programs run alike**, unless a `let rec` binds a function from elsewhere.  By
induction on the depth; closures carry the correspondence of the names they were made under. -/
theorem watchedWith_rel (fuel : ℕ) {K : Word → Word → Prop} {env env' : Env} {e e' : IrNode}
    (h : Alpha IsPoll K e e') (ht : e.Tidy) (ht' : e'.Tidy) (henv : EnvRel IsPoll K env env') :
    SimUnless (ValRel IsPoll) (watchedWith M fuel env e) (watchedWith M fuel env' e') := by
  induction fuel generalizing K env env' e e' with
  | zero => exact .more
  | succ fuel ih =>
      have hrec (env : Env) (node : IrNode) : Stays (watchedWith M fuel env node) :=
        watchedWith_stays fuel env node
      refine (SimUnless.of_beside (R := Eq) (fun _ => rfl) M.call).bind
        (fun _ => watchedStep_stays hrec env e) (fun _ => watchedStep_stays hrec env' e') ?_
      rintro a _ rfl
      cases h with
      | intLiteral n => exact .pure (.int n)
      | floatLiteral f => exact .pure (.float f)
      | var hxy => exact varStep_rel (watchedWith M fuel) (watchedWith M fuel) hxy henv
      | bin op hl hr =>
          have hop (env : Env) (r : IrNode) (v : Value) :
              Stays (watchedWith M fuel env r >>= fun w => op.onValues M.beside v w) :=
            (hrec env r).bind fun w => op.onValues_stays v w
          exact (ih hl ht.1 ht'.1 henv).bind (hop env _) (hop env' _) fun v v' hv =>
            (ih hr ht.2 ht'.2 henv).bind (op.onValues_stays v) (op.onValues_stays v')
              fun w w' hw => op.onValues_rel hv hw
      | pair hl hr =>
          have hpair (env : Env) (r : IrNode) (v : Value) :
              Stays (watchedWith M fuel env r >>= fun w => pure (Value.pair v w)) :=
            (hrec env r).bind fun _ _ => rfl
          exact (ih hl ht.1 ht'.1 henv).bind (hpair env _) (hpair env' _) fun v v' hv =>
            (ih hr ht.2 ht'.2 henv).bind (fun _ _ => rfl) (fun _ _ => rfl) fun w w' hw =>
              .pure (.pair hv hw)
      | left hv =>
          exact (ih hv ht ht' henv).bind (fun _ _ => rfl) (fun _ _ => rfl) fun v v' hvv =>
            .pure (.left hvv)
      | right hv =>
          exact (ih hv ht ht' henv).bind (fun _ _ => rfl) (fun _ _ => rfl) fun v v' hvv =>
            .pure (.right hvv)
      | lambda hb => exact .pure (.closure hb ht ht' henv)
      | app hf ha =>
          refine (ih hf ht.1 ht'.1 henv).bind (fun f => (hrec env _).bind (app_stays hrec f))
            (fun f => (hrec env' _).bind (app_stays hrec f)) fun f f' hff =>
            (ih ha ht.2 ht'.2 henv).bind (app_stays hrec f) (app_stays hrec f') fun a a' haa => ?_
          have hff' := hff
          cases hff with
          | closure hbody htb htb' he => exact ih hbody htb htb' (he.insert haa)
          | recClosure hbody htb htb' he =>
              exact ih hbody htb htb' ((he.insert haa).insert hff')
          | _ => exact .err _ _
      | matchE he hl hr =>
          obtain ⟨hte, htl, htr⟩ := ht
          obtain ⟨hte', htl', htr'⟩ := ht'
          refine (ih he hte hte' henv).bind (match_stays hrec env _ _ _ _)
            (match_stays hrec env' _ _ _ _) fun v v' hv => ?_
          cases hv with
          | left hv => exact ih hl htl htl' (henv.insert hv)
          | right hv => exact ih hr htr htr' (henv.insert hv)
          | _ => exact .err _ _
      | letE hv hb =>
          exact (ih hv ht.1 ht'.1 henv).bind (fun v => hrec _ _) (fun v => hrec _ _)
            fun v v' hvv => ih hb ht.2 ht'.2 (henv.insert hvv)
      | @letRecFun _ x x' p p' f f' b b' he hb =>
          obtain ⟨hx, htf, htb⟩ := ht
          obtain ⟨hx', htf', htb'⟩ := ht'
          refine (watchedWith_lambda fuel p p' f f' env env').bind (fun v => (Stays.raise _).bind fun _ => hrec _ _)
            (fun v => (Stays.raise _).bind fun _ => hrec _ _) ?_
          rintro _ _ ⟨rfl, rfl⟩
          refine .raise (fun _ => hrec _ _) (fun _ => hrec _ _) fun _ _ => ?_
          exact ih hb htb htb' (henv.insert (tagRec_rel he htf htf' hx hx' henv))
      | letRecVal hval hval' hv hb =>
          obtain ⟨-, htv, htb⟩ := ht
          obtain ⟨-, htv', htb'⟩ := ht'
          exact (ih hv htv htv' henv).bind (fun v => (Stays.raise _).bind fun _ => hrec _ _)
            (fun v => (Stays.raise _).bind fun _ => hrec _ _) fun v v' hvv =>
            .raise (fun _ => hrec _ _) (fun _ => hrec _ _) fun hf hf' =>
              ih hb htb htb' (henv.insert (tagRec_foreign hvv hval hval' hf hf'))
      | unpack hp he =>
          refine (ih hp ht.1 ht'.1 henv).bind (unpack_stays hrec env _ _ _)
            (unpack_stays hrec env' _ _ _) fun v v' hv => ?_
          cases hv with
          | pair hl hr => exact ih he ht.2 ht'.2 ((henv.insert hl).insert hr)
          | _ => exact .err _ _

end

/-! ### What is seen of an evaluation -/

/-- A value without the insides of its functions. -/
inductive Shape
  | int (n : Int64)
  | float (f : F64)
  | pair (l r : Shape)
  | left (v : Shape)
  | right (v : Shape)
  | function
  deriving DecidableEq

def Value.shape : Value → Shape
  | .int n => .int n
  | .float f => .float f
  | .pair l r => .pair l.shape r.shape
  | .left v => .left v.shape
  | .right v => .right v.shape
  | .closure _ _ _ _ => .function

/-- How an evaluation ended. -/
inductive Ending
  | value (s : Shape)
  | error
  | panicked
  | unfinished
  deriving DecidableEq

def ending : Out Value → Ending
  | .ok v => .value v.shape
  | .err _ => .error
  | .panic => .panicked
  | .more => .unfinished

section
variable {reserved : Word → Prop}

theorem ValRel.shape_eq {v v' : Value} : ValRel reserved v v' → v.shape = v'.shape
  | .int n => rfl
  | .float f => rfl
  | .pair hl hr => by rw [Value.shape, Value.shape, hl.shape_eq, hr.shape_eq]
  | .left hv => by rw [Value.shape, Value.shape, hv.shape_eq]
  | .right hv => by rw [Value.shape, Value.shape, hv.shape_eq]
  | .closure _ _ _ _ => rfl
  | .recClosure _ _ _ _ => rfl

/-- Outcomes with values of one shape. -/
theorem ending_of_outRel {R : Value → Value → Prop} (hR : ∀ v v', R v v' → v.shape = v'.shape)
    {o o' : Out Value} (h : OutRel R o o') : ending o = ending o' := by
  cases h with
  | ok hv => rw [ending, ending, hR _ _ hv]
  | err msg msg' => rfl
  | panic => rfl
  | more => rfl

theorem ending_eq {o o' : Out Value} (h : OutRel (ValRel reserved) o o') : ending o = ending o' :=
  ending_of_outRel (fun _ _ => ValRel.shape_eq) h

end

/-- **Bound names do not matter.**  Programs that differ in the names they bind, evaluated in the
same environment with the same results of the polls, end alike at every depth of the recursion,
and leave the same polls to come. -/
theorem renaming_kept {e e' : Expr} {env : Env} {net : Net} {fuel : ℕ}
    (h : Alpha IsPoll Eq (eraseProofs e) (eraseProofs e')) (ht : (eraseProofs e).Tidy)
    (ht' : (eraseProofs e').Tidy) (henv : ∀ x v, env.get x = some v → v.Tidy)
    (hw : watched fuel env (eraseProofs e) net = false)
    (hw' : watched fuel env (eraseProofs e') net = false) :
    ending (evaluate fuel env (eraseProofs e) net).1 =
        ending (evaluate fuel env (eraseProofs e') net).1 ∧
      (evaluate fuel env (eraseProofs e) net).2 = (evaluate fuel env (eraseProofs e') net).2 := by
  have hself : EnvRel IsPoll Eq env env := .refl fun x v hv => (henv x v hv).rel
  obtain ⟨hout, hnet⟩ := (watchedWith_rel fuel h ht ht' hself).ends net hw hw'
  have hsim (node : IrNode) := watchedWith_sim (M := netMachine) fuel env node net (net, false) rfl
  obtain ⟨h₁, h₂⟩ := hsim (eraseProofs e)
  obtain ⟨h₁', h₂'⟩ := hsim (eraseProofs e')
  constructor
  · calc ending (evaluate fuel env (eraseProofs e) net).1
        = ending (watchedWith netMachine fuel env (eraseProofs e) (net, false)).1 := by
          rw [evaluate, h₁]
      _ = ending (watchedWith netMachine fuel env (eraseProofs e') (net, false)).1 :=
          ending_eq hout
      _ = ending (evaluate fuel env (eraseProofs e') net).1 := by rw [evaluate, h₁']
  · calc (evaluate fuel env (eraseProofs e) net).2
        = (watchedWith netMachine fuel env (eraseProofs e) (net, false)).2.1 := h₂.symm
      _ = (watchedWith netMachine fuel env (eraseProofs e') (net, false)).2.1 := hnet
      _ = (evaluate fuel env (eraseProofs e') net).2 := h₂'

/-- `let rec f = \ n : Int . let g = n in add g 1 in ( f POLL )`, for names `n` and `g`. -/
def polledSuccessor (n g : String) : Expr :=
  .letRec "f".toList
    (.lambda n.toList .int
      (.letE g.toList (.var n.toList) (.bin .add (.var g.toList) (.intLiteral 1))))
    (.app (.var "f".toList) (.var "POLL".toList) false)

theorem polledSuccessor_alpha :
    Alpha IsPoll Eq (eraseProofs (polledSuccessor "n" "f"))
      (eraseProofs (polledSuccessor "x" "y")) := by
  refine .letRecFun (.letE (.var (.inr ⟨?_, ?_, .inl ⟨rfl, rfl⟩⟩)) ?_) ?_
  · decide
  · decide
  · exact .bin .add (.var (.inr ⟨by decide, by decide, .inl ⟨rfl, rfl⟩⟩)) (.intLiteral 1)
  · exact .app (.var (.inr ⟨by decide, by decide, .inl ⟨rfl, rfl⟩⟩)) (.var (.inl ⟨rfl, rfl⟩))

theorem polledSuccessor_tidy (n g : String) (h : n ≠ "f") :
    (eraseProofs (polledSuccessor n g)).Tidy := by
  refine ⟨?_, ⟨trivial, trivial, trivial⟩, trivial, trivial⟩
  rintro ⟨e, he, -⟩
  injection he with hn
  exact h (String.toList_inj.1 hn)

/-- The inner binder has the name of the `let rec`. -/
theorem polledSuccessor_kept :
    ending (evaluate 8 seededEnv (eraseProofs (polledSuccessor "n" "f")) fun _ => 41).1 =
      ending (evaluate 8 seededEnv (eraseProofs (polledSuccessor "x" "y")) fun _ => 41).1 := by
  have henv : ∀ x v, seededEnv.get x = some v → v.Tidy := by
    intro x v hv
    rw [seededEnv, Env.get_insert, Env.get_insert] at hv
    split_ifs at hv
    · obtain rfl := Option.some.inj hv
      exact .int _
    · obtain rfl := Option.some.inj hv
      exact .int _
    · cases hv
  exact (renaming_kept polledSuccessor_alpha (polledSuccessor_tidy _ _ (by decide))
    (polledSuccessor_tidy _ _ (by decide)) henv (by decide) (by decide)).1

-- Not tidy: `let rec f = \ f : Int . f in ( f 1 )` returns the function in place of its argument.
example : ending (evaluate 4 [] (.letRec "f".toList (.lambda "f".toList (.var "f".toList))
    (.app (.var "f".toList) (.intLiteral 1))) fun _ => 0).1 = .value .function := by decide

-- Watched: `let f = 5 in let g = \ x : Int . f in let rec f = g in ( f 1 )` returns the function
-- in place of 5, since `g` is given the name of a variable that it uses.
example : ending (evaluate 6 [] (.letE "f".toList (.intLiteral 5)
    (.letE "g".toList (.lambda "x".toList (.var "f".toList)) (.letRec "f".toList (.var "g".toList)
      (.app (.var "f".toList) (.intLiteral 1))))) fun _ => 0).1 = .value .function := by decide

/-- A binder `POLL` is not looked at. -/
theorem pollBinder_ignored :
    ¬ ∀ (e e' : Expr) (env : Env) (net : Net) (fuel : ℕ),
      Alpha (fun _ => False) Eq (eraseProofs e) (eraseProofs e') →
        ending (evaluate fuel env (eraseProofs e) net).1 =
          ending (evaluate fuel env (eraseProofs e') net).1 := by
  intro h
  have halpha : Alpha (fun _ => False) Eq
      (.letE "POLL".toList (.intLiteral 5) (.var "POLL".toList))
      (.letE "x".toList (.intLiteral 5) (.var "x".toList)) :=
    .letE (.intLiteral 5) (.var (.inr ⟨id, id, .inl ⟨rfl, rfl⟩⟩))
  have h5 := h (.letE "POLL".toList (.intLiteral 5) (.var "POLL".toList))
    (.letE "x".toList (.intLiteral 5) (.var "x".toList)) [] (fun _ => 0) 2 halpha
  exact absurd h5 (by decide)

end Autarky
end AiOsExchange
