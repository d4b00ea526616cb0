/-
# Typed contracts do not go wrong

The types of `autarky_vm/src/ast.rs` are read by the parser and dropped by `erase_proofs`; nothing
checks them.  `HasType` says what they mean: the type of a lambda's parameter is the one written
behind it, `Any` is the type of every value and of no use of one, and the function of a `let rec`
is a lambda, with its own name in scope over its parameter, as `App` inserts them.

| error of `vm.rs` | in a program with a type |
| --- | --- |
| `Unbound variable: ..`, `App on non-closure`, `Match scrutinee must be Either`, `Unpack requires Pair`, `.. requires Int` | never |
| `Div by zero` | may be |

So the machine needs no types where a program has one (`evaluate_typed`), and such a program is
answered with a value of its type or with the one fault (`typed_answers`).
-/

import AiOsExchange.Autarky.Grammar
import AiOsExchange.Autarky.Execute
import AiOsExchange.Lib.Finish

namespace AiOsExchange
namespace Autarky

open Computations CMemory Watcher

/-! ### Types of programs -/

/-- The types of the names in scope, the innermost first. -/
abbrev Ctx := List (Word × Ty)

/-- The type of an operator's result. -/
def BinOp.type : BinOp → Ty
  | .add | .sub | .mul | .div => .int
  | .eq | .gt | .lt | .ge | .le => .either .int .int

/-- The names in scope in the body of a function: its parameter, and over it its own name. -/
def applyCtx (Γ : Ctx) (param : Word) (τ₁ τ₂ : Ty) : Option Word → Ctx
  | none => (param, τ₁) :: Γ
  | some name => (name, .func τ₁ τ₂) :: (param, τ₁) :: Γ

/-- **The type of a program.** -/
inductive HasType : Ctx → Expr → Ty → Prop
  | intLiteral {Γ} (n : Int64) : HasType Γ (.intLiteral n) .int
  | floatLiteral {Γ} (f : F64) : HasType Γ (.floatLiteral f) .float
  | poll {Γ} : HasType Γ (.var "POLL".toList) .int
  | var {Γ name τ} (hname : name ≠ "POLL".toList) (h : Γ.lookup name = some τ) :
      HasType Γ (.var name) τ
  | bin {Γ l r} (op : BinOp) (hl : HasType Γ l .int) (hr : HasType Γ r .int) :
      HasType Γ (.bin op l r) op.type
  | lambda {Γ param τ₁ body τ₂} (h : HasType (applyCtx Γ param τ₁ τ₂ none) body τ₂) :
      HasType Γ (.lambda param τ₁ body) (.func τ₁ τ₂)
  | app {Γ func arg τ₁ τ₂} (tail : Bool) (hf : HasType Γ func (.func τ₁ τ₂))
      (ha : HasType Γ arg τ₁) : HasType Γ (.app func arg tail) τ₂
  | pair {Γ l r τ₁ τ₂} (hl : HasType Γ l τ₁) (hr : HasType Γ r τ₂) :
      HasType Γ (.pair l r) (.pair τ₁ τ₂)
  | unpack {Γ a b pair body τ₁ τ₂ τ} (hp : HasType Γ pair (.pair τ₁ τ₂))
      (h : HasType ((b, τ₂) :: (a, τ₁) :: Γ) body τ) : HasType Γ (.unpack a b pair body) τ
  | left {Γ e τ₁} (τ₂ : Ty) (h : HasType Γ e τ₁) : HasType Γ (.left e) (.either τ₁ τ₂)
  | right {Γ e τ₂} (τ₁ : Ty) (h : HasType Γ e τ₂) : HasType Γ (.right e) (.either τ₁ τ₂)
  | matchE {Γ expr lVar lBody rVar rBody τ₁ τ₂ τ} (he : HasType Γ expr (.either τ₁ τ₂))
      (hl : HasType ((lVar, τ₁) :: Γ) lBody τ) (hr : HasType ((rVar, τ₂) :: Γ) rBody τ) :
      HasType Γ (.matchE expr lVar lBody rVar rBody) τ
  | letE {Γ name val body τ₁ τ} (hv : HasType Γ val τ₁) (h : HasType ((name, τ₁) :: Γ) body τ) :
      HasType Γ (.letE name val body) τ
  | letRec {Γ name val body τ₁ τ} (hno : ∀ τ₂ τ₃, τ₁ ≠ .func τ₂ τ₃) (hv : HasType Γ val τ₁)
      (h : HasType ((name, τ₁) :: Γ) body τ) : HasType Γ (.letRec name val body) τ
  | letRecFun {Γ name param τ₁ fbody τ₂ body τ}
      (hf : HasType (applyCtx Γ param τ₁ τ₂ (some name)) fbody τ₂)
      (h : HasType ((name, .func τ₁ τ₂) :: Γ) body τ) :
      HasType Γ (.letRec name (.lambda param τ₁ fbody) body) τ
  | any {Γ e τ} (h : HasType Γ e τ) : HasType Γ e .any

/-! ### Types of values -/

/-- **The type of a value.**  A closure has a type if its body does, in a context that its
environment has values for. -/
inductive Value.Has : Value → Ty → Prop
  | any (v : Value) : Has v .any
  | int (n : Int64) : Has (.int n) .int
  | float (f : F64) : Has (.float f) .float
  | pair {l r τ₁ τ₂} (hl : Has l τ₁) (hr : Has r τ₂) : Has (.pair l r) (.pair τ₁ τ₂)
  | left {v τ₁} (τ₂ : Ty) (hv : Has v τ₁) : Has (.left v) (.either τ₁ τ₂)
  | right {v τ₂} (τ₁ : Ty) (hv : Has v τ₂) : Has (.right v) (.either τ₁ τ₂)
  | closure {Γ : Ctx} {param e env recName τ₁ τ₂}
      (hbody : HasType (applyCtx Γ param τ₁ τ₂ recName) e τ₂)
      (hbound : ∀ x τ, Γ.lookup x = some τ → (Env.get env x).isSome)
      (henv : ∀ x τ v, Γ.lookup x = some τ → Env.get env x = some v → Has v τ) :
      Has (.closure param (eraseProofs e) env recName) (.func τ₁ τ₂)

/-- The environment has a value of its type for every name in the context. -/
def Env.Typed (env : Env) (Γ : Ctx) : Prop :=
  ∀ x τ, Γ.lookup x = some τ → ∃ v, env.get x = some v ∧ v.Has τ

/-- The types of the environment `autarky_execute` seeds. -/
def seededCtx : Ctx := [("SYS_CREDITS".toList, .int), ("SYS_COMPUTE".toList, .int)]

section
variable {env : Env} {Γ : Ctx} {v f : Value} {τ τ₁ τ₂ : Ty} {x param : Word}

/-- A name that is bound to a value of its type. -/
theorem Env.Typed.insert (h : env.Typed Γ) (x : Word) (hv : v.Has τ) :
    Env.Typed (env.insert x v) ((x, τ) :: Γ) := by
  intro y τ' hy
  rw [List.lookup_cons] at hy
  rw [Env.get, Env.insert, List.lookup_cons]
  cases hyx : y == x with
  | true =>
      rw [hyx] at hy
      obtain rfl := Option.some.inj hy
      exact ⟨v, rfl, hv⟩
  | false =>
      rw [hyx] at hy
      exact h y τ' hy

/-- **The environment a function's body is evaluated in.** -/
theorem Env.Typed.apply (h : env.Typed Γ) {a : Value} (param : Word) (hf : f.Has (.func τ₁ τ₂))
    (ha : a.Has τ₁) (recName : Option Word) :
    Env.Typed (applyEnv f a param env recName) (applyCtx Γ param τ₁ τ₂ recName) := by
  cases recName with
  | none => exact h.insert param ha
  | some name => exact (h.insert param ha).insert name hf

theorem seededEnv_typed : seededEnv.Typed seededCtx := by
  have hnil : Env.Typed [] [] := by
    intro x τ h
    cases h
  exact (hnil.insert _ (.int 1000)).insert _ (.int 500)

/-- Closures made under a typed environment. -/
theorem Value.Has.of_typed {e : Expr} {recName : Option Word} (h : env.Typed Γ)
    (hbody : HasType (applyCtx Γ param τ₁ τ₂ recName) e τ₂) :
    Value.Has (.closure param (eraseProofs e) env recName) (.func τ₁ τ₂) := by
  refine .closure hbody (fun x τ hx => ?_) fun x τ v hx hv => ?_
  · obtain ⟨v, hv, -⟩ := h x τ hx
    rw [hv]
    rfl
  · obtain ⟨w, hw, hτ⟩ := h x τ hx
    rw [hw] at hv
    exact Option.some.inj hv ▸ hτ

/-- **The functions of a type**: closures whose bodies have it. -/
theorem Value.Has.exists_closure (h : v.Has (.func τ₁ τ₂)) :
    ∃ param e env recName Γ, v = .closure param (eraseProofs e) env recName ∧ Env.Typed env Γ ∧
      HasType (applyCtx Γ param τ₁ τ₂ recName) e τ₂ := by
  cases h with
  | @closure Γ param e env recName _ _ hbody hbound henv =>
      refine ⟨param, e, env, recName, Γ, rfl, fun x τ hx => ?_, hbody⟩
      obtain ⟨w, hw⟩ := Option.isSome_iff_exists.1 (hbound x τ hx)
      exact ⟨w, hw, henv x τ w hx hw⟩

theorem verdict_has (c : Bool) : (verdict c).Has (.either .int .int) := by
  cases c with
  | true => exact .left _ (.int 0)
  | false => exact .right _ (.int 0)

/-- Nothing but a closure is changed by a `let rec`. -/
theorem Value.Has.tagRec (h : v.Has τ) (hno : ∀ τ₁ τ₂, τ ≠ .func τ₁ τ₂) (name : Word) :
    (Autarky.tagRec name v).Has τ := by
  cases h with
  | any v => exact .any _
  | closure => exact absurd rfl (hno _ _)
  | int n => exact .int n
  | float f => exact .float f
  | pair hl hr => exact .pair hl hr
  | left τ₂ hv => exact .left τ₂ hv
  | right τ₁ hv => exact .right τ₁ hv

end

/-! ### Evaluation -/

/-- The one error of a program with a type. -/
def DivByZero (msg : String) : Prop := msg = "Div by zero"

/-- Operators on integers. -/
theorem BinOp.onValues_typed (op : BinOp) (a b : Int64) :
    Yields (·.Has op.type) DivByZero (op.onValues netMachine (.int a) (.int b)) := by
  cases op with
  | div =>
      by_cases hb : b = 0
      · simp only [BinOp.onValues, BinOp.apply, if_pos hb]
        exact .err rfl
      · simp only [BinOp.onValues, BinOp.apply, if_neg hb]
        refine Yields.bind (Q := fun _ => True) ?_ fun q _ => .pure (Value.Has.int q)
        intro net
        refine ⟨fun _ _ => trivial, fun msg hmsg => ?_⟩
        simp only [netMachine] at hmsg
        split_ifs at hmsg <;> cases hmsg
  | add | sub | mul => exact .pure (Value.Has.int _)
  | eq | gt | lt | ge | le => exact .pure (verdict_has _)

/-- **A program with a type yields values of that type**, and fails with nothing but a division by
zero. -/
theorem evaluate_typed {Γ : Ctx} {e : Expr} {τ : Ty} (fuel : ℕ) {env : Env} (he : HasType Γ e τ)
    (henv : env.Typed Γ) : Yields (·.Has τ) DivByZero (evaluate fuel env (eraseProofs e)) := by
  induction fuel generalizing Γ e τ env with
  | zero => exact .more
  | succ fuel ih =>
      induction he with
      | any _ ih' => exact (ih' henv).mono fun v _ => .any v
      | intLiteral n => exact .pure (.int n)
      | floatLiteral f => exact .pure (.float f)
      | poll =>
          change Yields _ _ (evaluateStep netMachine (evaluate fuel) env (.var "POLL".toList))
          simp only [evaluateStep, if_true]
          refine Yields.bind (Q := fun _ => True) ?_ fun volume _ => .pure (Value.Has.int _)
          exact fun _ => ⟨fun _ _ => trivial, fun _ hmsg => by cases hmsg⟩
      | var hname h =>
          obtain ⟨v, hv, hτ⟩ := henv _ _ h
          change Yields _ _ (evaluateStep netMachine (evaluate fuel) env (.var _))
          simp only [evaluateStep, if_neg hname, hv]
          exact .pure hτ
      | bin op hl hr =>
          refine (ih hl henv).bind fun a ha => (ih hr henv).bind fun b hb => ?_
          cases ha with
          | int a =>
              cases hb with
              | int b => exact op.onValues_typed a b
      | lambda h => exact .pure (.of_typed henv h)
      | app tail hf ha =>
          refine (ih hf henv).bind fun f hf => (ih ha henv).bind fun a ha => ?_
          obtain ⟨param, e, cenv, recName, Γ', rfl, hcenv, hbody⟩ := hf.exists_closure
          exact ih hbody (hcenv.apply param hf ha recName)
      | pair hl hr =>
          exact (ih hl henv).bind fun a ha => (ih hr henv).bind fun b hb => .pure (.pair ha hb)
      | unpack hp h =>
          refine (ih hp henv).bind fun v hv => ?_
          cases hv with
          | pair hl hr => exact ih h ((henv.insert _ hl).insert _ hr)
      | left τ₂ h => exact (ih h henv).bind fun v hv => .pure (.left τ₂ hv)
      | right τ₁ h => exact (ih h henv).bind fun v hv => .pure (.right τ₁ hv)
      | matchE he hl hr =>
          refine (ih he henv).bind fun v hv => ?_
          cases hv with
          | left _ hv => exact ih hl (henv.insert _ hv)
          | right _ hv => exact ih hr (henv.insert _ hv)
      | letE hv h => exact (ih hv henv).bind fun v hv => ih h (henv.insert _ hv)
      | letRec hno hv h =>
          exact (ih hv henv).bind fun v hv => ih h (henv.insert _ (hv.tagRec hno _))
      | @letRecFun Γ name param τ₁ fbody τ₂ body τ hf h =>
          -- the closure is made without its name and tagged with it
          have hlambda : Yields (· = .closure param (eraseProofs fbody) env none) DivByZero
              (evaluate fuel env (.lambda param (eraseProofs fbody))) := by
            cases fuel with
            | zero => exact .more
            | succ fuel => exact .pure rfl
          refine hlambda.bind fun v hv => ?_
          obtain rfl := hv
          exact ih h (henv.insert name (.of_typed henv hf))

/-! ### Executions -/

/-- **The answer to a program with a type.**  If an execution of it comes back, it has charged its
price and answered with a value of that type, whose receipt it committed, or it has answered
`ATK FAULT: Div by zero` and committed nothing. -/
theorem typed_answers (fmtValue : Value → List Char) {fuel maxLen : ℕ} {bytecode : Option Buf}
    {outBuf out : Buf} {ast : Expr} {τ : Ty} {host host' : Host} {gas : ℕ}
    (hc : compile (sourceText bytecode maxLen) = .ok ast) (hτ : HasType seededCtx ast τ)
    (hr : autarkyExecute fmtValue fuel bytecode outBuf maxLen host = (.ok (gas, out), host')) :
    gas = gasMetered ∧
      ((∃ val, val.Has τ ∧ out = copyOut (matchedBytes fmtValue val) maxLen outBuf ∧
          host'.watcher = watcherCommitLedger
            (generateTxId (sourceText bytecode maxLen) val.volume (host.timer 0)) val.volume
            (host.timer 1) host.watcher) ∨
        out = copyOut (faultBytes "Div by zero") maxLen outBuf ∧ host'.watcher = host.watcher) := by
  have hend := ended_of_autarkyExecute hc hr
  have hyields := evaluate_typed fuel hτ seededEnv_typed host.net
  rcases hv : evaluate fuel seededEnv (eraseProofs ast) host.net with ⟨o, net⟩
  rw [hv] at hend hyields
  rcases hend with ⟨val, rfl⟩ | ⟨msg, rfl⟩
  · rw [autarkyExecute_of_ok hc hv] at hr
    cases hr
    exact ⟨rfl, .inl ⟨val, hyields.1 val rfl, rfl, rfl⟩⟩
  · obtain rfl : msg = "Div by zero" := hyields.2 msg rfl
    rw [autarkyExecute_of_err hc hv] at hr
    cases hr
    exact ⟨rfl, .inr ⟨rfl, rfl⟩⟩

/-! ### A program with a type -/

/-- `let f = \x : Int -> div 6 x in (f 0)`. -/
def quotientText : List UInt8 := ascii "let f = \\x : Int -> div 6 x in (f 0)"

/-- The program of `quotientText`. -/
def quotientExpr : Expr :=
  .letE ['f'] (.lambda ['x'] .int (.bin .div (.intLiteral 6) (.var ['x'])))
    (.app (.var ['f']) (.intLiteral 0) false)

theorem compile_quotientText :
    compile (sourceText (some (cString quotientText)) 256) = .ok quotientExpr := by
  have hs : sourceText (some (cString quotientText)) 256 = trimmed quotientText :=
    sourceText_cString (by decide) (by decide)
  have ht : trimmed quotientText = "let f = \\x : Int -> div 6 x in (f 0)".toList := by decide
  have hw : words "let f = \\x : Int -> div 6 x in (f 0)".toList =
      ["let", "f", "=", "\\", "x", ":", "Int", "->", "div", "6", "x", "in", "(", "f", "0",
        ")"].map String.toList := by
    decide
  rw [hs, ht, compile_eq_ok_iff, accepts_iff, parseWords, hw]
  decide

theorem quotientExpr_type : HasType seededCtx quotientExpr .int :=
  .letE (.lambda (.bin .div (.intLiteral 6) (.var (by decide) rfl)))
    (.app false (.var (by decide) rfl) (.intLiteral 0))

/-- The quotient by 0 is answered with the fault. -/
theorem quotient_answered : ∃ out host',
    autarkyExecute (fun _ => []) 5 (some (cString quotientText)) (fun _ => 0) 256 idleHost =
        (.ok (gasMetered, out), host') ∧
      ((∃ val, val.Has .int ∧
          out = copyOut (matchedBytes (fun _ => []) val) 256 (fun _ => 0) ∧
          host'.watcher = watcherCommitLedger
            (generateTxId (sourceText (some (cString quotientText)) 256) val.volume
              (idleHost.timer 0)) val.volume (idleHost.timer 1) idleHost.watcher) ∨
        out = copyOut (faultBytes "Div by zero") 256 (fun _ => 0) ∧
          host'.watcher = idleHost.watcher) := by
  have hv : evaluate 5 seededEnv (eraseProofs quotientExpr) idleHost.net =
      (.err "Div by zero", idleHost.net) := rfl
  have hr : autarkyExecute (fun _ => []) 5 (some (cString quotientText)) (fun _ => 0) 256 idleHost =
      (.ok (gasMetered, copyOut (faultBytes "Div by zero") 256 fun _ => 0), idleHost) :=
    autarkyExecute_of_err compile_quotientText hv
  exact ⟨_, _, hr, (typed_answers (fun _ => []) compile_quotientText quotientExpr_type hr).2⟩

end Autarky
end AiOsExchange
