/-
# Typed contracts without recursion come back

`autarky_execute` of `autarky_vm/src/lib.rs` waits for `VirtualMachine::evaluate` for as long as
it takes, and nothing meters it.  A contract that has a type (`HasType`) and no `let rec` ends
all the same, whatever the network delivers: functions can only be applied at smaller types than
their own.

The proof is by a relation between types and values (`Value.Total`), by recursion on the type.  A
total function is one whose body ends on every total argument.  Every typed program ends in a
total value or a failure (`HasType.terminates`), and so its execution comes back, or halts on the
one division that panics (`typed_comes_back`).
-/

import AiOsExchange.Autarky.BigStep
import AiOsExchange.Autarky.Panics
import AiOsExchange.Autarky.Typing

namespace AiOsExchange
namespace Autarky

open Computations CMemory

/-- There is no `let rec` in the program. -/
def Expr.NoLetRec : Expr → Prop
  | .intLiteral _ | .floatLiteral _ | .var _ => True
  | .bin _ l r | .pair l r | .app l r _ => l.NoLetRec ∧ r.NoLetRec
  | .left e | .right e | .lambda _ _ e => e.NoLetRec
  | .matchE e _ l _ r => e.NoLetRec ∧ l.NoLetRec ∧ r.NoLetRec
  | .letE _ v b | .unpack _ _ v b => v.NoLetRec ∧ b.NoLetRec
  | .letRec _ _ _ => False

/-- **Values that no use of their type keeps busy for ever.** -/
def Value.Total : Ty → Value → Prop
  | .any, _ => True
  | .int, v => ∃ n, v = .int n
  | .float, v => ∃ f, v = .float f
  | .pair τ₁ τ₂, v => ∃ l r, v = .pair l r ∧ Total τ₁ l ∧ Total τ₂ r
  | .either τ₁ τ₂, v => (∃ w, v = .left w ∧ Total τ₁ w) ∨ ∃ w, v = .right w ∧ Total τ₂ w
  | .func τ₁ τ₂, v => ∃ param body env, v = .closure param body env none ∧
      ∀ a, Total τ₁ a → ∀ net, ∃ r net',
        Evaluates (Env.insert param a env) body net r net' ∧ ∀ w, r = .value w → Total τ₂ w

/-- On every network the program ends, with a failure or a total value. -/
def Terminates (env : Env) (node : IrNode) (τ : Ty) : Prop :=
  ∀ net, ∃ r net', Evaluates env node net r net' ∧ ∀ w, r = .value w → w.Total τ

/-- The environment has a total value for every name in the context. -/
def Env.Total (env : Env) (Γ : Ctx) : Prop :=
  ∀ x τ, Γ.lookup x = some τ → ∃ v, env.get x = some v ∧ v.Total τ

section
variable {env : Env} {Γ : Ctx} {node part part' : IrNode} {v : Value} {τ τ₁ τ₂ : Ty}

theorem Env.Total.insert (h : env.Total Γ) (x : Word) (hv : v.Total τ) :
    Env.Total (env.insert x v) ((x, τ) :: Γ) := by
  intro y τ' hy
  rw [List.lookup_cons] at hy
  rw [Env.get, Env.insert, List.lookup_cons]
  cases hyx : y == x with
  | true =>
      rw [hyx] at hy
      obtain rfl := Option.some.inj hy
      exact ⟨v, rfl, hv⟩
  | false =>
      rw [hyx] at hy
      exact h y τ' hy

theorem seededEnv_total : seededEnv.Total seededCtx := by
  have hnil : Env.Total [] [] := by
    intro x τ h
    cases h
  exact (hnil.insert _ (show Value.Total .int (.int 1000) from ⟨_, rfl⟩)).insert _ ⟨_, rfl⟩

/-! ### Parts of a construct -/

theorem Terminates.of_value (h : ∀ net, ∃ net', Evaluates env node net (.value v) net')
    (hv : v.Total τ) : Terminates env node τ := by
  intro net
  obtain ⟨net', he⟩ := h net
  exact ⟨.value v, net', he, fun w hw => Result.value.inj hw ▸ hv⟩

/-- **A construct ends** if its first part does, and it does from every value of it. -/
theorem Terminates.of_first (hpart : node.first = some part) (h : Terminates env part τ₁)
    (hrest : ∀ v net net₁, v.Total τ₁ → Evaluates env part net (.value v) net₁ →
      ∃ r net', Evaluates env node net r net' ∧ ∀ w, r = .value w → w.Total τ) :
    Terminates env node τ := by
  intro net
  obtain ⟨r, net₁, hr, hv⟩ := h net
  cases r with
  | value v => exact hrest v net net₁ (hv v rfl) hr
  | fails e => exact ⟨.fails e, net₁, .first hpart hr, nofun⟩

/-- Constructs with two parts. -/
theorem Terminates.of_second (hpart : node.first = some part) (hpart' : node.second = some part')
    (h : Terminates env part τ₁) (h' : Terminates env part' τ₂)
    (hrest : ∀ v w net net₁ net₂, v.Total τ₁ → w.Total τ₂ →
      Evaluates env part net (.value v) net₁ → Evaluates env part' net₁ (.value w) net₂ →
        ∃ r net', Evaluates env node net r net' ∧ ∀ w, r = .value w → w.Total τ) :
    Terminates env node τ := by
  refine .of_first hpart h fun v net net₁ hv he => ?_
  obtain ⟨r, net₂, hr, hw⟩ := h' net₁
  cases r with
  | value w => exact hrest v w net net₁ net₂ hv (hw w rfl) he hr
  | fails e => exact ⟨.fails e, net₂, .second hpart hpart' he hr, nofun⟩

/-- Operators on integers. -/
theorem BinOp.result_total (op : BinOp) (a b : Int64) (w : Value)
    (h : op.result (.int a) (.int b) = .value w) : w.Total op.type := by
  have hverdict (c : Bool) : (verdict c).Total (.either .int .int) := by
    cases c with
    | true => exact .inl ⟨_, rfl, _, rfl⟩
    | false => exact .inr ⟨_, rfl, _, rfl⟩
  cases op with
  | div =>
      simp only [BinOp.result] at h
      split_ifs at h
      exact ⟨_, (Result.value.inj h).symm⟩
  | add | sub | mul => exact ⟨_, (Result.value.inj h).symm⟩
  | eq | gt | lt | ge | le => exact Result.value.inj h ▸ hverdict _

end

/-- **A typed program without `let rec` ends.**  By induction on its type derivation: a function
is total because its body ends in every environment that has total values. -/
theorem HasType.terminates {Γ : Ctx} {e : Expr} {τ : Ty} (he : HasType Γ e τ) :
    e.NoLetRec → ∀ env, Env.Total env Γ → Terminates env (eraseProofs e) τ := by
  induction he with
  | any _ ih =>
      intro hno env henv net
      obtain ⟨r, net', hr, -⟩ := ih hno env henv net
      exact ⟨r, net', hr, fun _ _ => trivial⟩
  | intLiteral n =>
      intro _ env _
      exact .of_value (fun net => ⟨net, .intLiteral n⟩) ⟨n, rfl⟩
  | floatLiteral f =>
      intro _ env _
      exact .of_value (fun net => ⟨net, .floatLiteral f⟩) ⟨f, rfl⟩
  | poll =>
      intro _ env _ net
      exact ⟨_, _, .poll, fun w hw => ⟨_, (Result.value.inj hw).symm⟩⟩
  | var hname h =>
      intro _ env henv
      obtain ⟨v, hv, htotal⟩ := henv _ _ h
      exact .of_value (fun net => ⟨net, .var hname hv⟩) htotal
  | bin op hl hr ihl ihr =>
      intro hno env henv
      refine .of_second rfl rfl (ihl hno.1 env henv) (ihr hno.2 env henv) ?_
      rintro v w net net₁ net₂ ⟨a, rfl⟩ ⟨b, rfl⟩ he he'
      exact ⟨_, _, .bin he he', op.result_total a b⟩
  | lambda h ih =>
      intro hno env henv
      refine .of_value (fun net => ⟨net, .lambda⟩) ⟨_, _, _, rfl, fun a ha => ?_⟩
      exact ih hno (env.insert _ a) (henv.insert _ ha)
  | app tail hf ha ihf iha =>
      intro hno env henv
      refine .of_second rfl rfl (ihf hno.1 env henv) (iha hno.2 env henv) ?_
      rintro f a net net₁ net₂ ⟨param, body, cenv, rfl, hbody⟩ ha he he'
      obtain ⟨r, net', hr, htotal⟩ := hbody a ha net₂
      exact ⟨r, net', .app he he' hr, htotal⟩
  | pair hl hr ihl ihr =>
      intro hno env henv
      refine .of_second rfl rfl (ihl hno.1 env henv) (ihr hno.2 env henv) ?_
      intro v w net net₁ net₂ hv hw he he'
      refine ⟨_, _, .pair he he', fun u hu => ?_⟩
      exact ⟨v, w, (Result.value.inj hu).symm, hv, hw⟩
  | unpack hp h ihp ih =>
      intro hno env henv
      refine .of_first rfl (ihp hno.1 env henv) ?_
      rintro v net net₁ ⟨l, r, rfl, hl, hr⟩ he
      obtain ⟨res, net', hres, htotal⟩ :=
        ih hno.2 _ ((henv.insert _ hl).insert _ hr) net₁
      exact ⟨res, net', .unpack he hres, htotal⟩
  | left τ₂ h ih =>
      intro hno env henv
      refine .of_first rfl (ih hno env henv) fun v net net₁ hv he => ?_
      exact ⟨_, _, .left he, fun w hw => .inl ⟨v, (Result.value.inj hw).symm, hv⟩⟩
  | right τ₁ h ih =>
      intro hno env henv
      refine .of_first rfl (ih hno env henv) fun v net net₁ hv he => ?_
      exact ⟨_, _, .right he, fun w hw => .inr ⟨v, (Result.value.inj hw).symm, hv⟩⟩
  | matchE he hl hr ihe ihl ihr =>
      intro hno env henv
      refine .of_first rfl (ihe hno.1 env henv) ?_
      rintro v net net₁ (⟨w, rfl, hw⟩ | ⟨w, rfl, hw⟩) he
      · obtain ⟨r, net', hr, htotal⟩ := ihl hno.2.1 _ (henv.insert _ hw) net₁
        exact ⟨r, net', .matchLeft he hr, htotal⟩
      · obtain ⟨r, net', hr, htotal⟩ := ihr hno.2.2 _ (henv.insert _ hw) net₁
        exact ⟨r, net', .matchRight he hr, htotal⟩
  | letE hv h ihv ih =>
      intro hno env henv
      refine .of_first rfl (ihv hno.1 env henv) fun v net net₁ hv he => ?_
      obtain ⟨r, net', hr, htotal⟩ := ih hno.2 _ (henv.insert _ hv) net₁
      exact ⟨r, net', .letE he hr, htotal⟩
  | letRec => exact fun hno => hno.elim
  | letRecFun => exact fun hno => hno.elim

/-- **Typed contracts without recursion come back.**  With enough fuel, and any more, an execution
of such a program returns to the kernel with its answer; or it has divided the least integer by
`-1`, and panics. -/
theorem typed_comes_back (fmtValue : Value → List Char) {maxLen : ℕ} {bytecode : Option Buf}
    {ast : Expr} {τ : Ty} (hc : compile (sourceText bytecode maxLen) = .ok ast)
    (hτ : HasType seededCtx ast τ) (hno : ast.NoLetRec) (outBuf : Buf) (host : Host) :
    ∃ fuel, ∀ n, fuel ≤ n →
      (∃ out host', autarkyExecute fmtValue n bytecode outBuf maxLen host =
        (.ok (gasMetered, out), host')) ∨
      (autarkyExecute fmtValue n bytecode outBuf maxLen host).1 = .panic ∧
        ∃ d ∈ (evaluateTraced n seededEnv (eraseProofs ast) host.net).2.2.divisions,
          divOverflows d.1 d.2 := by
  obtain ⟨r, net', hr, -⟩ := hτ.terminates hno _ seededEnv_total host.net
  obtain ⟨fuel, hfuel⟩ := hr.ends
  refine ⟨fuel, fun n hn => ?_⟩
  have heval : evaluate n seededEnv (eraseProofs ast) host.net = (r.out, net') := hfuel n hn
  rcases r with val | msg | _
  · exact .inl (autarkyExecute_of_ended hc (.inl ⟨val, by rw [heval]; rfl⟩))
  · exact .inl (autarkyExecute_of_ended hc (.inr ⟨msg, by rw [heval]; rfl⟩))
  · refine .inr ⟨?_, (evaluate_panics_iff n _ _ _).1 (by rw [heval]; rfl)⟩
    rw [autarkyExecute_of_compile hc, Comp.bind_apply]
    simp only [Comp.attempt, onNet, heval]
    rfl

/-- The program that divides 6 by 0 comes back. -/
theorem quotient_comes_back : ∃ fuel, ∀ n, fuel ≤ n →
    (∃ out host', autarkyExecute (fun _ => []) n (some (cString quotientText)) (fun _ => 0) 256
      idleHost = (.ok (gasMetered, out), host')) ∨
    (autarkyExecute (fun _ => []) n (some (cString quotientText)) (fun _ => 0) 256 idleHost).1 =
        .panic ∧
      ∃ d ∈ (evaluateTraced n seededEnv (eraseProofs quotientExpr) idleHost.net).2.2.divisions,
        divOverflows d.1 d.2 :=
  typed_comes_back (fun _ => []) compile_quotientText quotientExpr_type
    ⟨⟨trivial, trivial⟩, trivial, trivial⟩ (fun _ => 0) idleHost

end Autarky
end AiOsExchange
