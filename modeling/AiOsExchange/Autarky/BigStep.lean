/-
# Contracts without fuel

What `VirtualMachine::evaluate` of `autarky_vm/src/vm.rs` means, as a relation between a program,
the polls still to come and a result: `Evaluates` has a rule for each way a construct ends, and
no fuel.  Failures take two rules, since a construct fails with the first of its parts that does.

| rules | the construct |
| --- | --- |
| `first`, `second` | fails with its first or its second part |
| `unbound`, `notClosure`, `notEither`, `notPair` | fails with an error of its own |
| the others | comes to a value, or goes on as another evaluation does |

The evaluator of the source, at any depth that is enough, computes this relation and nothing else
(`evaluates_iff`).
-/

import AiOsExchange.Autarky.Vm
import AiOsExchange.Lib.Finish

namespace AiOsExchange
namespace Autarky

open Computations

/-! ### The relation -/

/-- An operator on two values. -/
def BinOp.result (op : BinOp) : Value → Value → Result Value
  | .int a, .int b =>
      match op with
      | .add => .value (.int (a + b))
      | .sub => .value (.int (a - b))
      | .mul => .value (.int (a * b))
      | .div =>
          if b = 0 then .fails (.error "Div by zero")
          else if divOverflows a b then .fails .panic
          else .value (.int (a / b))
      | .eq => .value (verdict (decide (a = b)))
      | .gt => .value (verdict (decide (b < a)))
      | .lt => .value (verdict (decide (a < b)))
      | .ge => .value (verdict (decide (b ≤ a)))
      | .le => .value (verdict (decide (a ≤ b)))
  | _, _ => .fails (.error op.mismatch)

/-- The part of a construct that is evaluated first. -/
def IrNode.first : IrNode → Option IrNode
  | .bin _ l _ | .pair l _ => some l
  | .left v | .right v => some v
  | .app func _ => some func
  | .matchE expr _ _ _ _ => some expr
  | .letE _ val _ | .letRec _ val _ => some val
  | .unpack _ _ p _ => some p
  | .intLiteral _ | .floatLiteral _ | .var _ | .lambda _ _ => none

/-- The part that is evaluated after it, in the same environment. -/
def IrNode.second : IrNode → Option IrNode
  | .bin _ _ r | .pair _ r => some r
  | .app _ arg => some arg
  | _ => none

/-- **Evaluation**: in this environment, with these polls to come, the program ends with this
result and leaves these polls. -/
inductive Evaluates : Env → IrNode → Net → Result Value → Net → Prop
  | intLiteral {env net} (n : Int64) : Evaluates env (.intLiteral n) net (.value (.int n)) net
  | floatLiteral {env net} (f : F64) :
      Evaluates env (.floatLiteral f) net (.value (.float f)) net
  | poll {env net} : Evaluates env (.var "POLL".toList) net (.value (.int (net 0).toInt64))
      fun n => net (n + 1)
  | var {env net name v} (hname : name ≠ "POLL".toList) (hv : env.get name = some v) :
      Evaluates env (.var name) net (.value v) net
  | unbound {env net name} (hname : name ≠ "POLL".toList) (hv : env.get name = none) :
      Evaluates env (.var name) net
        (.fails (.error ("Unbound variable: " ++ String.ofList name))) net
  | first {env node part net e net'} (hpart : node.first = some part)
      (h : Evaluates env part net (.fails e) net') : Evaluates env node net (.fails e) net'
  | second {env node part part' net v net₁ e net'} (hpart : node.first = some part)
      (hpart' : node.second = some part') (h : Evaluates env part net (.value v) net₁)
      (h' : Evaluates env part' net₁ (.fails e) net') : Evaluates env node net (.fails e) net'
  | bin {env op l r net a net₁ b net'} (hl : Evaluates env l net (.value a) net₁)
      (hr : Evaluates env r net₁ (.value b) net') :
      Evaluates env (.bin op l r) net (op.result a b) net'
  | pair {env l r net a net₁ b net'} (hl : Evaluates env l net (.value a) net₁)
      (hr : Evaluates env r net₁ (.value b) net') :
      Evaluates env (.pair l r) net (.value (.pair a b)) net'
  | left {env e net v net'} (h : Evaluates env e net (.value v) net') :
      Evaluates env (.left e) net (.value (.left v)) net'
  | right {env e net v net'} (h : Evaluates env e net (.value v) net') :
      Evaluates env (.right e) net (.value (.right v)) net'
  | lambda {env param body net} :
      Evaluates env (.lambda param body) net (.value (.closure param body env none)) net
  | app {env func arg net param body cenv recName net₁ a net₂ r net'}
      (hf : Evaluates env func net (.value (.closure param body cenv recName)) net₁)
      (ha : Evaluates env arg net₁ (.value a) net₂)
      (h : Evaluates (applyEnv (.closure param body cenv recName) a param cenv recName) body net₂
        r net') :
      Evaluates env (.app func arg) net r net'
  | notClosure {env func arg net f net₁ a net'} (hf : Evaluates env func net (.value f) net₁)
      (ha : Evaluates env arg net₁ (.value a) net')
      (hno : ∀ param body cenv recName, f ≠ .closure param body cenv recName) :
      Evaluates env (.app func arg) net (.fails (.error "App on non-closure")) net'
  | matchLeft {env expr lVar lBody rVar rBody net v net₁ r net'}
      (he : Evaluates env expr net (.value (.left v)) net₁)
      (h : Evaluates (env.insert lVar v) lBody net₁ r net') :
      Evaluates env (.matchE expr lVar lBody rVar rBody) net r net'
  | matchRight {env expr lVar lBody rVar rBody net v net₁ r net'}
      (he : Evaluates env expr net (.value (.right v)) net₁)
      (h : Evaluates (env.insert rVar v) rBody net₁ r net') :
      Evaluates env (.matchE expr lVar lBody rVar rBody) net r net'
  | notEither {env expr lVar lBody rVar rBody net v net'}
      (he : Evaluates env expr net (.value v) net') (hl : ∀ w, v ≠ .left w)
      (hr : ∀ w, v ≠ .right w) :
      Evaluates env (.matchE expr lVar lBody rVar rBody) net
        (.fails (.error "Match scrutinee must be Either")) net'
  | letE {env name val body net v net₁ r net'} (hv : Evaluates env val net (.value v) net₁)
      (h : Evaluates (env.insert name v) body net₁ r net') :
      Evaluates env (.letE name val body) net r net'
  | letRec {env name val body net v net₁ r net'} (hv : Evaluates env val net (.value v) net₁)
      (h : Evaluates (env.insert name (tagRec name v)) body net₁ r net') :
      Evaluates env (.letRec name val body) net r net'
  | unpack {env a b pair body net l r net₁ res net'}
      (hp : Evaluates env pair net (.value (.pair l r)) net₁)
      (h : Evaluates ((env.insert a l).insert b r) body net₁ res net') :
      Evaluates env (.unpack a b pair body) net res net'
  | notPair {env a b pair body net v net'} (hp : Evaluates env pair net (.value v) net')
      (hno : ∀ l r, v ≠ .pair l r) :
      Evaluates env (.unpack a b pair body) net (.fails (.error "Unpack requires Pair")) net'

/-! ### One level of the evaluator -/

/-- The operators of the machine. -/
theorem BinOp.onValues_eq (op : BinOp) (v w : Value) (net : Net) :
    op.onValues netMachine v w net = ((op.result v w).out, net) := by
  cases v with
  | int a =>
      cases w with
      | int b =>
          cases op with
          | div =>
              simp only [BinOp.onValues, BinOp.apply, BinOp.result]
              by_cases hb : b = 0
              · rw [if_pos hb, if_pos hb]
                rfl
              · by_cases hd : divOverflows a b
                · rw [if_neg hb, if_neg hb, if_pos hd, Comp.bind_apply]
                  simp only [netMachine, hb, hd, or_true, if_true]
                  rfl
                · rw [if_neg hb, if_neg hb, if_neg hd, Comp.bind_apply]
                  simp only [netMachine, hb, hd, or_self, if_false]
                  rfl
          | _ => rfl
      | _ => rfl
  | _ => rfl

/-- No level is spent on a call. -/
theorem evaluate_succ (fuel : ℕ) (env : Env) (node : IrNode) :
    evaluate (fuel + 1) env node = evaluateStep netMachine (evaluate fuel) env node := rfl

/-- A construct whose first part fails. -/
theorem evaluateStep_first {rec : Env → IrNode → Comp Net Value} {env : Env} {node part : IrNode}
    {net net' : Net} {e : Failure} (hpart : node.first = some part)
    (h : rec env part net = (e.out, net')) :
    evaluateStep netMachine rec env node net = (e.out, net') := by
  cases node <;> cases hpart <;> exact Comp.bind_of_fails h _

/-- A construct whose second part fails. -/
theorem evaluateStep_second {rec : Env → IrNode → Comp Net Value} {env : Env}
    {node part part' : IrNode} {net net₁ net' : Net} {v : Value} {e : Failure}
    (hpart : node.first = some part) (hpart' : node.second = some part')
    (h : rec env part net = (.ok v, net₁)) (h' : rec env part' net₁ = (e.out, net')) :
    evaluateStep netMachine rec env node net = (e.out, net') := by
  cases node <;> cases hpart' <;> cases hpart <;>
    exact (Comp.bind_of_ok h _).trans (Comp.bind_of_fails h' _)

/-! ### The evaluator computes the relation -/

/-- **Every evaluation that ends follows the rules.** -/
theorem evaluates_of_evaluate {fuel : ℕ} {env : Env} {node : IrNode} {net net' : Net}
    {r : Result Value} (h : evaluate fuel env node net = (r.out, net')) :
    Evaluates env node net r net' := by
  induction fuel generalizing env node net net' r with
  | zero => exact absurd (Prod.ext_iff.1 h).1.symm r.out_ne_more
  | succ fuel ih =>
      rw [evaluate_succ] at h
      cases node with
      | intLiteral n =>
          obtain ⟨rfl, rfl⟩ := Result.eq_of_ok h
          exact .intLiteral n
      | floatLiteral f =>
          obtain ⟨rfl, rfl⟩ := Result.eq_of_ok h
          exact .floatLiteral f
      | lambda param body =>
          obtain ⟨rfl, rfl⟩ := Result.eq_of_ok h
          exact .lambda
      | var name =>
          by_cases hname : name = "POLL".toList
          · obtain rfl := hname
            obtain ⟨rfl, rfl⟩ := Result.eq_of_ok h
            exact .poll
          · simp only [evaluateStep, if_neg hname] at h
            cases hv : env.get name with
            | some v =>
                rw [hv] at h
                obtain ⟨rfl, rfl⟩ := Result.eq_of_ok h
                exact .var hname hv
            | none =>
                rw [hv] at h
                obtain ⟨rfl, rfl⟩ := Result.eq_of_err h
                exact .unbound hname hv
      | bin op l r' =>
          obtain ⟨a, net₁, hl, h⟩ | ⟨e, rfl, hl⟩ := Comp.bind_eq_out_iff.1 h
          · obtain ⟨b, net₂, hr, h⟩ | ⟨e, rfl, hr⟩ := Comp.bind_eq_out_iff.1 h
            · rw [BinOp.onValues_eq] at h
              obtain ⟨ho, rfl⟩ := Prod.ext_iff.1 h
              obtain rfl := Result.out_inj ho.symm
              exact .bin (ih (r := .value a) hl) (ih (r := .value b) hr)
            · exact .second rfl rfl (ih (r := .value a) hl) (ih hr)
          · exact .first rfl (ih hl)
      | pair l r' =>
          obtain ⟨a, net₁, hl, h⟩ | ⟨e, rfl, hl⟩ := Comp.bind_eq_out_iff.1 h
          · obtain ⟨b, net₂, hr, h⟩ | ⟨e, rfl, hr⟩ := Comp.bind_eq_out_iff.1 h
            · obtain ⟨rfl, rfl⟩ := Result.eq_of_ok h
              exact .pair (ih (r := .value a) hl) (ih (r := .value b) hr)
            · exact .second rfl rfl (ih (r := .value a) hl) (ih hr)
          · exact .first rfl (ih hl)
      | left v =>
          obtain ⟨a, net₁, hv, h⟩ | ⟨e, rfl, hv⟩ := Comp.bind_eq_out_iff.1 h
          · obtain ⟨rfl, rfl⟩ := Result.eq_of_ok h
            exact .left (ih (r := .value a) hv)
          · exact .first rfl (ih hv)
      | right v =>
          obtain ⟨a, net₁, hv, h⟩ | ⟨e, rfl, hv⟩ := Comp.bind_eq_out_iff.1 h
          · obtain ⟨rfl, rfl⟩ := Result.eq_of_ok h
            exact .right (ih (r := .value a) hv)
          · exact .first rfl (ih hv)
      | app func arg =>
          obtain ⟨f, net₁, hf, h⟩ | ⟨e, rfl, hf⟩ := Comp.bind_eq_out_iff.1 h
          · obtain ⟨a, net₂, ha, h⟩ | ⟨e, rfl, ha⟩ := Comp.bind_eq_out_iff.1 h
            · have hf := ih (r := .value f) hf
              have ha := ih (r := .value a) ha
              cases f with
              | closure param body cenv recName => exact .app hf ha (ih h)
              | _ =>
                  obtain ⟨rfl, rfl⟩ := Result.eq_of_err h
                  exact .notClosure hf ha fun _ _ _ _ hc => by cases hc
            · exact .second rfl rfl (ih (r := .value f) hf) (ih ha)
          · exact .first rfl (ih hf)
      | matchE expr lVar lBody rVar rBody =>
          obtain ⟨v, net₁, he, h⟩ | ⟨e, rfl, he⟩ := Comp.bind_eq_out_iff.1 h
          · have he := ih (r := .value v) he
            cases v with
            | left v => exact .matchLeft he (ih h)
            | right v => exact .matchRight he (ih h)
            | _ =>
                obtain ⟨rfl, rfl⟩ := Result.eq_of_err h
                exact .notEither he (fun _ hc => by cases hc) fun _ hc => by cases hc
          · exact .first rfl (ih he)
      | letE name val body =>
          obtain ⟨v, net₁, hv, h⟩ | ⟨e, rfl, hv⟩ := Comp.bind_eq_out_iff.1 h
          · exact .letE (ih (r := .value v) hv) (ih h)
          · exact .first rfl (ih hv)
      | letRec name val body =>
          obtain ⟨v, net₁, hv, h⟩ | ⟨e, rfl, hv⟩ := Comp.bind_eq_out_iff.1 h
          · exact .letRec (ih (r := .value v) hv) (ih h)
          · exact .first rfl (ih hv)
      | unpack a b pair body =>
          obtain ⟨v, net₁, hp, h⟩ | ⟨e, rfl, hp⟩ := Comp.bind_eq_out_iff.1 h
          · have hp := ih (r := .value v) hp
            cases v with
            | pair l r' => exact .unpack hp (ih h)
            | _ =>
                obtain ⟨rfl, rfl⟩ := Result.eq_of_err h
                exact .notPair hp fun _ _ hc => by cases hc
          · exact .first rfl (ih hp)

/-- A level of the evaluator that ends, from some fuel for its parts on. -/
theorem ends_of_step {env : Env} {node : IrNode} {net net' : Net} {r : Result Value}
    (h : Ends (fun n => evaluateStep netMachine (evaluate n) env node) net r net') :
    Ends (fun n => evaluate n env node) net r net' := h.succ fun n => evaluate_succ n env node

/-- **The rules lead where the evaluator does**, given enough fuel. -/
theorem Evaluates.ends {env : Env} {node : IrNode} {net net' : Net} {r : Result Value}
    (h : Evaluates env node net r net') : Ends (fun n => evaluate n env node) net r net' := by
  induction h with
  | intLiteral n => exact ends_of_step (.of_forall fun _ => rfl)
  | floatLiteral f => exact ends_of_step (.of_forall fun _ => rfl)
  | poll => exact ends_of_step (.of_forall fun _ => rfl)
  | lambda => exact ends_of_step (.of_forall fun _ => rfl)
  | var hname hv =>
      refine ends_of_step (.of_forall fun n => ?_)
      simp only [evaluateStep, if_neg hname, hv]
      rfl
  | unbound hname hv =>
      refine ends_of_step (.of_forall fun n => ?_)
      simp only [evaluateStep, if_neg hname, hv]
      rfl
  | first hpart _ ih =>
      obtain ⟨n, hn⟩ := ih
      exact ends_of_step ⟨n, fun m hm => evaluateStep_first hpart (hn m hm)⟩
  | second hpart hpart' _ _ ih ih' =>
      obtain ⟨n, hn⟩ := ih
      obtain ⟨k, hk⟩ := ih'
      exact ends_of_step ⟨max n k, fun m hm =>
        evaluateStep_second hpart hpart' (hn m (by omega)) (hk m (by omega))⟩
  | bin _ _ ihl ihr =>
      exact ends_of_step (ihl.bind (ihr.bind (.of_forall fun _ => BinOp.onValues_eq ..)))
  | pair _ _ ihl ihr => exact ends_of_step (ihl.bind (ihr.bind (.of_forall fun _ => rfl)))
  | left _ ih => exact ends_of_step (ih.bind (.of_forall fun _ => rfl))
  | right _ ih => exact ends_of_step (ih.bind (.of_forall fun _ => rfl))
  | app _ _ _ ihf iha ih => exact ends_of_step (ihf.bind (iha.bind ih))
  | @notClosure _ _ _ _ f _ _ _ _ _ hno ihf iha =>
      refine ends_of_step (ihf.bind (iha.bind (.of_forall fun n => ?_)))
      cases f with
      | closure param body cenv recName => exact absurd rfl (hno _ _ _ _)
      | _ => rfl
  | matchLeft _ _ ihe ih => exact ends_of_step (ihe.bind ih)
  | matchRight _ _ ihe ih => exact ends_of_step (ihe.bind ih)
  | @notEither _ _ _ _ _ _ _ v _ _ hl hr ihe =>
      refine ends_of_step (ihe.bind (.of_forall fun n => ?_))
      cases v with
      | left w => exact absurd rfl (hl w)
      | right w => exact absurd rfl (hr w)
      | _ => rfl
  | letE _ _ ihv ih => exact ends_of_step (ihv.bind ih)
  | letRec _ _ ihv ih => exact ends_of_step (ihv.bind ih)
  | unpack _ _ ihp ih => exact ends_of_step (ihp.bind ih)
  | @notPair _ _ _ _ _ _ v _ _ hno ihp =>
      refine ends_of_step (ihp.bind (.of_forall fun n => ?_))
      cases v with
      | pair l r => exact absurd rfl (hno l r)
      | _ => rfl

/-- **The evaluator computes the meaning of a program.**  An evaluation follows the rules exactly
if the evaluator of the source comes to that result at some depth, and then it does so at every
depth from there on. -/
theorem evaluates_iff (env : Env) (node : IrNode) (net net' : Net) (r : Result Value) :
    (Evaluates env node net r net' ↔ ∃ fuel, evaluate fuel env node net = (r.out, net')) ∧
      (Evaluates env node net r net' →
        ∃ fuel, ∀ n, fuel ≤ n → evaluate n env node net = (r.out, net')) := by
  refine ⟨⟨fun h => ?_, fun ⟨_, h⟩ => evaluates_of_evaluate h⟩, fun h => h.ends⟩
  obtain ⟨n, hn⟩ := h.ends
  exact ⟨n, hn n (Nat.le_refl n)⟩

/-- A program has one meaning. -/
theorem Evaluates.unique {env : Env} {node : IrNode} {net net₁ net₂ : Net} {r₁ r₂ : Result Value}
    (h₁ : Evaluates env node net r₁ net₁) (h₂ : Evaluates env node net r₂ net₂) :
    r₁ = r₂ ∧ net₁ = net₂ := h₁.ends.unique h₂.ends

end Autarky
end AiOsExchange
