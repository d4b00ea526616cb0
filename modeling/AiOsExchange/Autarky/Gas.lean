/-
# Gas

`include/os_autarky.h` limits an execution to `ATK_GAS_LIMIT` units "to prevent EL1 kernel
lockup" and has `autarky_execute` return the gas it consumed.  In `autarky_vm/src/lib.rs` an
evaluated program returns the constant 1500 and no rule of the machine counts or stops.

A unit is a call of `evaluate`.  The execution is metered exactly if its text is no program, at
no cost, or its evaluation ends after 1500 calls (`metered_iff`).  With `let rec` it need not
end at all (`loop_not_metered`).
-/

import AiOsExchange.Autarky.Execute
import AiOsExchange.Autarky.Grammar

namespace AiOsExchange
namespace Autarky

open Computations CMemory Watcher

/-- `ATK_GAS_LIMIT`. -/
def atkGasLimit : ℕ := 10000

/-- The calls of `evaluate` an execution of this text makes, to a depth of `fuel`. -/
def evaluationSteps (fuel : ℕ) (source : List Char) (net : Net) : ℕ :=
  match compile source with
  | .ok e => (evaluateTraced fuel seededEnv (eraseProofs e) net).2.2.calls
  | _ => 0

/-- The execution comes back, and returns the gas it consumed, within the limit. -/
def Metered (fmtValue : Value → List Char) (bytecode : Option Buf) (outBuf : Buf) (maxLen : ℕ)
    (host : Host) : Prop :=
  ∃ fuel gas out host', autarkyExecute fmtValue fuel bytecode outBuf maxLen host =
      (.ok (gas, out), host') ∧
    gas = evaluationSteps fuel (sourceText bytecode maxLen) host.net ∧ gas ≤ atkGasLimit

/-- **An execution is metered exactly if its text is no program or its evaluation happens to
end after 1500 calls.** -/
theorem metered_iff (fmtValue : Value → List Char) (bytecode : Option Buf) (outBuf : Buf)
    (maxLen : ℕ) (host : Host) :
    Metered fmtValue bytecode outBuf maxLen host ↔
      (∀ e, compile (sourceText bytecode maxLen) ≠ .ok e) ∨
        ∃ e fuel, compile (sourceText bytecode maxLen) = .ok e ∧
          (evaluate fuel seededEnv (eraseProofs e) host.net).1.Ended ∧
          (evaluateTraced fuel seededEnv (eraseProofs e) host.net).2.2.calls = 1500 := by
  by_cases hc : ∃ e, compile (sourceText bytecode maxLen) = .ok e
  · obtain ⟨e, he⟩ := hc
    constructor
    · rintro ⟨fuel, gas, out, host', hr, hsteps, -⟩
      have hend := ended_of_autarkyExecute he hr
      obtain ⟨out', host'', hr'⟩ := autarkyExecute_of_ended he hend
      rw [hr] at hr'
      obtain rfl : gas = gasMetered := by cases hr'; rfl
      simp only [evaluationSteps, he] at hsteps
      exact .inr ⟨e, fuel, he, hend, hsteps.symm⟩
    · rintro (h | ⟨e', fuel, he', hend, hsteps⟩)
      · exact absurd he (h e)
      · obtain ⟨out, host', hr⟩ := autarkyExecute_of_ended he' hend
        refine ⟨fuel, gasMetered, out, host', hr, ?_, by decide⟩
        simp only [evaluationSteps, he', hsteps, gasMetered]
  · have hno : ∀ e, compile (sourceText bytecode maxLen) ≠ .ok e := fun e he => hc ⟨e, he⟩
    refine iff_of_true ⟨0, 0, outBuf, host, autarkyExecute_of_rejected hno, ?_, by decide⟩
      (.inl hno)
    rw [evaluationSteps]
    split
    · exact absurd ‹_› (hno _)
    · rfl

/-! ### A program that never ends -/

/-- `let rec f = \x : Any -> (f x) in (f 0)`. -/
def loopText : List UInt8 := ascii "let rec f = \\x : Any -> (f x) in (f 0)"

/-- `(f x)`. -/
def loopBody : Expr := .app (.var ['f']) (.var ['x']) false

/-- The program of `loopText`. -/
def loopExpr : Expr :=
  .letRec ['f'] (.lambda ['x'] .any loopBody) (.app (.var ['f']) (.intLiteral 0) false)

theorem compile_loopText : compile (trimmed loopText) = .ok loopExpr := by
  have ht : trimmed loopText = "let rec f = \\x : Any -> (f x) in (f 0)".toList := by decide
  have hw : words "let rec f = \\x : Any -> (f x) in (f 0)".toList =
      ["let", "rec", "f", "=", "\\", "x", ":", "Any", "->", "(", "f", "x", ")", "in", "(", "f",
        "0", ")"].map String.toList := by
    decide
  rw [ht, compile_eq_ok_iff, accepts_iff, parseWords, hw]
  decide

/-- The closure `f` is bound to. -/
def loopClosure : Value := .closure ['x'] (eraseProofs loopBody) seededEnv (some ['f'])

/-- The environment of every call of `f`. -/
def loopEnv : Env := applyEnv loopClosure (.int 0) ['x'] seededEnv (some ['f'])

/-- A call of `f` leads to the same call. -/
theorem loopBody_more (fuel : ℕ) (net : Net) :
    evaluate fuel loopEnv (eraseProofs loopBody) net = (.more, net) := by
  induction fuel with
  | zero => rfl
  | succ fuel ih =>
      cases fuel with
      | zero => rfl
      | succ fuel => exact ih

theorem loopExpr_more (fuel : ℕ) (net : Net) :
    evaluate fuel seededEnv (eraseProofs loopExpr) net = (.more, net) := by
  rcases fuel with _ | _ | _ | fuel
  · rfl
  · rfl
  · rfl
  · exact loopBody_more (fuel + 1) net

/-- `let rec f = \x : Any -> (f x) in (f 0)` never comes back. -/
theorem loop_not_metered :
    ¬ ∀ fmtValue bytecode outBuf maxLen host, Metered fmtValue bytecode outBuf maxLen host := by
  intro h
  obtain ⟨fuel, gas, out, host', hr, -⟩ :=
    h (fun _ => []) (some (cString loopText)) (fun _ => 0) 256 idleHost
  have hs : sourceText (some (cString loopText)) 256 = trimmed loopText :=
    sourceText_cString (by decide) (by decide)
  have hend := ended_of_autarkyExecute (by rw [hs, compile_loopText]) hr
  rw [loopExpr_more] at hend
  simp at hend

end Autarky
end AiOsExchange
