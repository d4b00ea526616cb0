/-
# The machine

`autarky_vm/src/vm.rs`.  `VirtualMachine::evaluate` recurses on the program and on the bodies
of the closures it applies, so it carries fuel, the depth of the recursion; an evaluation ends
if some fuel is enough for it, and more changes nothing (`evaluateWith_mono`).

What an evaluation does outside itself is a `Machine`: it polls the network, it is called, it
divides.  `netMachine` is the source's.  `tracing` writes down beside another machine how often
`evaluate` was called and what was divided, and does not change what that machine does
(`tracing_evaluate`).

One level of `evaluate` keeps every congruence of computations that its parts keep
(`evaluateStep_congr`), and each fact about evaluations follows from that by induction on the
fuel.
-/

import AiOsExchange.Autarky.Ast
import AiOsExchange.Lib.Comp
import Mathlib.Data.List.Basic

namespace AiOsExchange
namespace Autarky

open Computations

/-- `vm::Value`.  The environment of a closure lists its insertions, the newest first. -/
inductive Value
  | int (n : Int64)
  | float (f : F64)
  | pair (l r : Value)
  | left (v : Value)
  | right (v : Value)
  | closure (param : Word) (body : IrNode) (env : List (Word × Value)) (recName : Option Word)

/-- `BTreeMap<String, Value>`, the newest insertion first. -/
abbrev Env := List (Word × Value)

/-- `env.insert(name, v)`. -/
def Env.insert (name : Word) (v : Value) (env : Env) : Env := (name, v) :: env

/-- `env.get(name)`. -/
def Env.get (env : Env) (name : Word) : Option Value := env.lookup name

/-- What an evaluation does outside itself. -/
structure Machine (σ : Type) where
  /-- `virtio_net_poll_rx`. -/
  poll : Comp σ Int32
  /-- The entry of `evaluate`. -/
  call : Comp σ Unit
  /-- `a / b`. -/
  div : Int64 → Int64 → Comp σ Int64

/-- `Left(0)` for true, `Right(0)` for false. -/
def verdict (c : Bool) : Value := if c then .left (.int 0) else .right (.int 0)

/-- The error of an operator whose operands are not both integers. -/
def BinOp.mismatch : BinOp → String
  | .add | .sub | .mul | .div => "Math requires Int"
  | .eq => "Eq requires Int"
  | .gt => "Gt requires Int"
  | .lt => "Lt requires Int"
  | .ge => "Ge requires Int"
  | .le => "Le requires Int"

section
variable {σ : Type} (M : Machine σ)

/-- An operator on two integers; sums, differences and products wrap. -/
def BinOp.apply : BinOp → Int64 → Int64 → Comp σ Value
  | .add, a, b => pure (.int (a + b))
  | .sub, a, b => pure (.int (a - b))
  | .mul, a, b => pure (.int (a * b))
  | .div, a, b =>
      if b = 0 then .err "Div by zero"
      else do
        let q ← M.div a b
        pure (.int q)
  | .eq, a, b => pure (verdict (decide (a = b)))
  | .gt, a, b => pure (verdict (decide (b < a)))
  | .lt, a, b => pure (verdict (decide (a < b)))
  | .ge, a, b => pure (verdict (decide (b ≤ a)))
  | .le, a, b => pure (verdict (decide (a ≤ b)))

/-- The arms of a `bin`, once both operands are evaluated. -/
def BinOp.onValues (op : BinOp) : Value → Value → Comp σ Value
  | .int a, .int b => op.apply M a b
  | _, _ => .err op.mismatch

/-- The environment a closure's body is evaluated in: the argument is inserted and then, over
it, the closure under its own name. -/
def applyEnv (f a : Value) (param : Word) (env : Env) : Option Word → Env
  | none => env.insert param a
  | some name => (env.insert param a).insert name f

/-- A closure made by `let rec` carries the name it is bound to. -/
def tagRec (var : Word) : Value → Value
  | .closure param body env _ => .closure param body env (some var)
  | v => v

/-- One level of `evaluate`, with `rec` for its recursive calls. -/
def evaluateStep (rec : Env → IrNode → Comp σ Value) (env : Env) : IrNode → Comp σ Value
  | .intLiteral n => pure (.int n)
  | .floatLiteral f => pure (.float f)
  | .var name =>
      if name = "POLL".toList then do
        let volume ← M.poll
        pure (.int volume.toInt64)
      else
        match env.get name with
        | some v => pure v
        | none => .err ("Unbound variable: " ++ String.ofList name)
  | .bin op l r => do
      let a ← rec env l
      let b ← rec env r
      op.onValues M a b
  | .pair l r => do
      let a ← rec env l
      let b ← rec env r
      pure (.pair a b)
  | .left v => do
      let a ← rec env v
      pure (.left a)
  | .right v => do
      let a ← rec env v
      pure (.right a)
  | .lambda param body => pure (.closure param body env none)
  | .app func arg => do
      let f ← rec env func
      let a ← rec env arg
      match f with
      | .closure param body env recName => rec (applyEnv f a param env recName) body
      | _ => .err "App on non-closure"
  | .matchE expr lVar lBody rVar rBody => do
      let v ← rec env expr
      match v with
      | .left v => rec (env.insert lVar v) lBody
      | .right v => rec (env.insert rVar v) rBody
      | _ => .err "Match scrutinee must be Either"
  | .letE var val body => do
      let v ← rec env val
      rec (env.insert var v) body
  | .letRec var val body => do
      let v ← rec env val
      rec (env.insert var (tagRec var v)) body
  | .unpack a b pair body => do
      let p ← rec env pair
      match p with
      | .pair l r => rec ((env.insert a l).insert b r) body
      | _ => .err "Unpack requires Pair"

/-- `VirtualMachine::evaluate`, to a depth of `fuel` calls. -/
def evaluateWith : ℕ → Env → IrNode → Comp σ Value
  | 0, _, _ => .more
  | fuel + 1, env, node => do
      M.call
      evaluateStep M (evaluateWith fuel) env node

end

/-- The environment `autarky_execute` seeds. -/
def seededEnv : Env :=
  Env.insert "SYS_CREDITS".toList (.int 500) (Env.insert "SYS_COMPUTE".toList (.int 1000) [])

/-! ### The source's machine and the tracing one -/

/-- The results of `virtio_net_poll_rx` that are still to come. -/
abbrev Net := ℕ → Int32

/-- The division panics: the quotient of the least `i64` by `-1` does not fit. -/
def divOverflows (a b : Int64) : Prop := a = Int64.minValue ∧ b = -1

instance (a b : Int64) : Decidable (divOverflows a b) :=
  inferInstanceAs (Decidable (a = Int64.minValue ∧ b = -1))

/-- The machine of the source. -/
def netMachine : Machine Net where
  poll net := (.ok (net 0), fun n => net (n + 1))
  call := pure ()
  div a b := if b = 0 ∨ divOverflows a b then .panic else pure (a / b)

/-- `VirtualMachine::evaluate` on the source's machine. -/
def evaluate (fuel : ℕ) (env : Env) (node : IrNode) : Comp Net Value :=
  evaluateWith netMachine fuel env node

/-- How often `evaluate` was called and the operands of the divisions performed. -/
structure Trace where
  calls : ℕ
  divisions : List (Int64 × Int64)

/-- A computation beside a trace. -/
def besideTrace {σ α : Type} (x : Comp σ α) : Comp (σ × Trace) α := fun s =>
  ((x s.1).1, ((x s.1).2, s.2))

/-- The machine that does what `M` does and writes it down. -/
def tracing {σ : Type} (M : Machine σ) : Machine (σ × Trace) where
  poll := besideTrace M.poll
  call s := besideTrace M.call (s.1, { s.2 with calls := s.2.calls + 1 })
  div a b s := besideTrace (M.div a b) (s.1, { s.2 with divisions := (a, b) :: s.2.divisions })

/-- An evaluation with its trace. -/
def evaluateTraced (fuel : ℕ) (env : Env) (node : IrNode) (net : Net) :
    Out Value × (Net × Trace) :=
  evaluateWith (tracing netMachine) fuel env node (net, ⟨0, []⟩)

/-! ### One level -/

/-- Machines that do related things. -/
structure MachineRel {σ τ : Type} (P : ∀ ⦃α : Type⦄, Comp σ α → Comp τ α → Prop) (M : Machine σ)
    (M' : Machine τ) : Prop where
  poll : P M.poll M'.poll
  call : P M.call M'.call
  div : ∀ a b, b ≠ 0 → P (M.div a b) (M'.div a b)

section
variable {σ τ : Type} {P : ∀ ⦃α : Type⦄, Comp σ α → Comp τ α → Prop} {M : Machine σ}
  {M' : Machine τ}

theorem BinOp.onValues_congr (hP : Congruence P) (hM : MachineRel P M M') (op : BinOp)
    (v w : Value) : P (op.onValues M v w) (op.onValues M' v w) := by
  cases v with
  | int a =>
      cases w with
      | int b =>
          cases op with
          | div =>
              by_cases hb : b = 0
              · simp only [BinOp.onValues, BinOp.apply, if_pos hb]
                exact hP.err _
              · simp only [BinOp.onValues, BinOp.apply, if_neg hb]
                exact hP.bind (hM.div a b hb) fun _ => hP.pure _
          | _ => exact hP.pure _
      | _ => exact hP.err _
  | _ => exact hP.err _

/-- **One level of `evaluate` keeps every congruence its parts keep.** -/
theorem evaluateStep_congr (hP : Congruence P) (hM : MachineRel P M M')
    {rec : Env → IrNode → Comp σ Value} {rec' : Env → IrNode → Comp τ Value}
    (h : ∀ env node, P (rec env node) (rec' env node)) (env : Env) (node : IrNode) :
    P (evaluateStep M rec env node) (evaluateStep M' rec' env node) := by
  cases node with
  | intLiteral n => exact hP.pure _
  | floatLiteral f => exact hP.pure _
  | var name =>
      by_cases hn : name = "POLL".toList
      · simp only [evaluateStep, if_pos hn]
        exact hP.bind hM.poll fun _ => hP.pure _
      · simp only [evaluateStep, if_neg hn]
        cases env.get name with
        | some v => exact hP.pure _
        | none => exact hP.err _
  | bin op l r =>
      exact hP.bind (h env l) fun a => hP.bind (h env r) fun b => op.onValues_congr hP hM a b
  | pair l r => exact hP.bind (h env l) fun _ => hP.bind (h env r) fun _ => hP.pure _
  | left v => exact hP.bind (h env v) fun _ => hP.pure _
  | right v => exact hP.bind (h env v) fun _ => hP.pure _
  | lambda param body => exact hP.pure _
  | app func arg =>
      refine hP.bind (h env func) fun f => hP.bind (h env arg) fun a => ?_
      cases f with
      | closure param body env recName => exact h _ _
      | _ => exact hP.err _
  | matchE expr lVar lBody rVar rBody =>
      refine hP.bind (h env expr) fun v => ?_
      cases v with
      | left v => exact h _ _
      | right v => exact h _ _
      | _ => exact hP.err _
  | letE var val body => exact hP.bind (h env val) fun _ => h _ _
  | letRec var val body => exact hP.bind (h env val) fun _ => h _ _
  | unpack a b pair body =>
      refine hP.bind (h env pair) fun p => ?_
      cases p with
      | pair l r => exact h _ _
      | _ => exact hP.err _

end

/-! ### Evaluations -/

/-- More fuel only completes an evaluation. -/
theorem evaluateWith_mono {σ : Type} (M : Machine σ) {m n : ℕ} (h : m ≤ n) (env : Env)
    (node : IrNode) : Le (evaluateWith M m env node) (evaluateWith M n env node) := by
  induction m generalizing n env node with
  | zero => exact .more _
  | succ m ih =>
      obtain ⟨k, rfl⟩ : ∃ k, n = k + 1 := ⟨n - 1, by omega⟩
      have hM : MachineRel (fun _ (x y : Comp σ _) => Le x y) M M :=
        ⟨.refl _, .refl _, fun _ _ _ => .refl _⟩
      exact Le.bind (.refl _) fun _ =>
        evaluateStep_congr Le.congruence hM (fun env node => ih (by omega) env node) env node

/-- Machines that do the same in related states evaluate alike. -/
theorem evaluateWith_sim {σ τ : Type} {R : σ → τ → Prop} {M : Machine σ} {M' : Machine τ}
    (hM : MachineRel (fun _ x y => Sim R x y) M M') (fuel : ℕ) (env : Env) (node : IrNode) :
    Sim R (evaluateWith M fuel env node) (evaluateWith M' fuel env node) := by
  induction fuel generalizing env node with
  | zero => exact .more
  | succ fuel ih => exact hM.call.bind fun _ => evaluateStep_congr (Sim.congruence R) hM ih env node

theorem tracing_sim {σ : Type} (M : Machine σ) :
    MachineRel (fun _ x y => Sim (fun s (t : σ × Trace) => t.1 = s) x y) M (tracing M) where
  poll := by
    rintro s t rfl
    exact ⟨rfl, rfl⟩
  call := by
    rintro s t rfl
    exact ⟨rfl, rfl⟩
  div a b _ := by
    rintro s t rfl
    exact ⟨rfl, rfl⟩

/-- **Tracing does not change an evaluation.** -/
theorem evaluateTraced_fst (fuel : ℕ) (env : Env) (node : IrNode) (net : Net) :
    (evaluateTraced fuel env node net).1 = (evaluate fuel env node net).1 :=
  ((evaluateWith_sim (tracing_sim netMachine) fuel env node) net (net, ⟨0, []⟩) rfl).1.symm

end Autarky
end AiOsExchange
