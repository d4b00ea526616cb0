/-
# When a contract panics

`autarky_vm/src/vm.rs` and `autarky_vm/src/parser.rs`.  A panic halts the kernel, the handler
in `lib.rs` looping forever.  The parser has none: every slice it takes is one of its text
(`compile_ended`).  The machine has one: `a / b` is guarded against a zero divisor only,
and the quotient of the least `i64` by `-1` does not fit.  So an evaluation panics exactly if
it performs that division (`evaluate_panics_iff`), and a program is safe exactly if it never
does (`panicFree_iff`).
-/

import AiOsExchange.Autarky.Execute
import AiOsExchange.Autarky.Grammar

namespace AiOsExchange
namespace Autarky

open Computations

/-- A division that panics has been written down. -/
def Overflowed (s : Net × Trace) : Prop := ∃ d ∈ s.2.divisions, divOverflows d.1 d.2

theorem tracing_panicsIff :
    MachineRel (fun _ (x _y : Comp (Net × Trace) _) => PanicsIff Overflowed x)
      (tracing netMachine) (tracing netMachine) where
  poll := fun _ hs => iff_of_false nofun hs
  call := fun _ hs => iff_of_false nofun hs
  div a b hb := by
    intro s hs
    have hiff : Overflowed ((tracing netMachine).div a b s).2 ↔ divOverflows a b := by
      simp only [Overflowed, tracing, besideTrace, List.mem_cons, exists_eq_or_imp]
      exact or_iff_left hs
    rw [hiff]
    simp only [tracing, besideTrace, netMachine, hb, false_or]
    split_ifs with hd
    · simp [hd]
    · simp [hd]

/-- **An evaluation panics exactly if it divides the least integer by `-1`.** -/
theorem evaluate_panics_iff (fuel : ℕ) (env : Env) (node : IrNode) (net : Net) :
    (evaluate fuel env node net).1 = .panic ↔
      ∃ d ∈ (evaluateTraced fuel env node net).2.2.divisions, divOverflows d.1 d.2 := by
  have h (fuel : ℕ) (env : Env) (node : IrNode) :
      PanicsIff Overflowed (evaluateWith (tracing netMachine) fuel env node) := by
    induction fuel generalizing env node with
    | zero => exact .of_stays fun _ => ⟨nofun, rfl⟩
    | succ fuel ih =>
        exact tracing_panicsIff.call.bind fun _ =>
          @evaluateStep_congr _ _ _ _ _ (PanicsIff.congruence Overflowed) tracing_panicsIff _
            (evaluateWith (tracing netMachine) fuel) ih env node
  rw [← evaluateTraced_fst]
  exact h fuel env node (net, ⟨0, []⟩) (by simp [Overflowed])

/-- Neither compiling the text nor evaluating the program it is ends with a panic: whenever the
evaluation finishes, it does so with a value or an error. -/
def PanicFree (source : List Char) (net : Net) : Prop :=
  (compile source).Ended ∧ ∀ e, compile source = .ok e → ∀ fuel,
    (evaluate fuel seededEnv (eraseProofs e) net).1 ≠ .more →
      (evaluate fuel seededEnv (eraseProofs e) net).1.Ended

/-- **A contract halts the kernel exactly if it divides the least integer by `-1`.**  No other
step of the parser or the machine panics. -/
theorem panicFree_iff (source : List Char) (net : Net) :
    PanicFree source net ↔ ∀ e, compile source = .ok e → ∀ fuel,
      ∀ d ∈ (evaluateTraced fuel seededEnv (eraseProofs e) net).2.2.divisions,
        ¬ divOverflows d.1 d.2 := by
  constructor
  · rintro ⟨-, h⟩ e he fuel d hd hover
    have hpanic := (evaluate_panics_iff fuel seededEnv (eraseProofs e) net).2 ⟨d, hd, hover⟩
    have hend := h e he fuel (by simp [hpanic])
    simp [hpanic] at hend
  · intro h
    refine ⟨compile_ended source, fun e he fuel hmore => (Out.ended_iff _).2 ⟨?_, hmore⟩⟩
    intro hp
    obtain ⟨d, hd, hover⟩ := (evaluate_panics_iff _ _ _ _).1 hp
    exact h e he fuel d hd hover

/-- `div -9223372036854775808 -1` halts the kernel. -/
theorem div_least_panics : ¬ ∀ source net, PanicFree source net := by
  intro h
  have hw : words "div -9223372036854775808 -1".toList =
      ["div".toList, "-9223372036854775808".toList, "-1".toList] := by
    decide
  have hf : Form Dropped (.bin .div (.intLiteral Int64.minValue) (.intLiteral (-1)))
      (words "div -9223372036854775808 -1".toList) [] := by
    rw [hw]
    exact .bin (by decide) (.word (by decide) (by decide)) (.word (by decide) (by decide))
  have hc := compile_eq_ok_iff.2 ((accepts_iff _ _).2 (parseWords_eq_ok_iff.2 hf))
  obtain ⟨-, hfree⟩ := h "div -9223372036854775808 -1".toList fun _ => 0
  have hp : (evaluate 2 seededEnv (.bin .div (.intLiteral Int64.minValue) (.intLiteral (-1)))
      fun _ => 0).1 = .panic := rfl
  have hend := hfree _ hc 2 (by simp [eraseProofs, hp])
  simp [eraseProofs, hp] at hend

end Autarky
end AiOsExchange
