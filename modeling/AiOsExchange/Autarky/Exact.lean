/-
# Arithmetic in 64 bits

The four operations of `autarky_vm/src/vm.rs` on integer literals.  The crate is built in release
mode, where `a + b`, `a - b` and `a * b` wrap around; `a / b` is guarded against the divisor 0 and
panics where the quotient does not fit.

| an operation has no result in `i64` | `evaluate` |
| --- | --- |
| the divisor is 0 | `Err` |
| the quotient of the least `i64` by `-1` | panics |
| a sum, difference or product does not fit | goes on with it modulo `2^64` |

`Arith` are the trees of such operations, `Arith.value` is what they mean over the integers and
`Arith.Sound` that every intermediate result fits.  `Arith.wrapped` is the value modulo `2^64`;
the first division of the tree that has no quotient decides how an evaluation ends
(`evaluate_toIr`).
-/

import AiOsExchange.Autarky.Vm

namespace AiOsExchange
namespace Autarky

open Computations

/-! ### Trees -/

/-- The four operations. -/
inductive ArithOp
  | add | sub | mul | div
  deriving DecidableEq

/-- A tree of operations on integer literals. -/
inductive Arith
  | literal (n : Int64)
  | op (o : ArithOp) (l r : Arith)

def ArithOp.toBin : ArithOp → BinOp
  | .add => .add
  | .sub => .sub
  | .mul => .mul
  | .div => .div

/-- The program of a tree. -/
def Arith.toIr : Arith → IrNode
  | .literal n => .intLiteral n
  | .op o l r => .bin o.toBin l.toIr r.toIr

/-- How deep `evaluate` recurses on it. -/
def Arith.depth : Arith → ℕ
  | .literal _ => 1
  | .op _ l r => max l.depth r.depth + 1

/-! ### Over the integers -/

/-- An operation over the integers, the quotient truncated toward zero. -/
def ArithOp.exact : ArithOp → ℤ → ℤ → Option ℤ
  | .add, a, b => some (a + b)
  | .sub, a, b => some (a - b)
  | .mul, a, b => some (a * b)
  | .div, a, b => if b = 0 then none else some (a.tdiv b)

/-- The value of a tree over the integers; none where a divisor is zero. -/
def Arith.value : Arith → Option ℤ
  | .literal n => some n.toInt
  | .op o l r => l.value.bind fun a => r.value.bind fun b => o.exact a b

/-- An integer that is an `i64`. -/
def Fits (z : ℤ) : Prop := -2 ^ 63 ≤ z ∧ z < 2 ^ 63

instance (z : ℤ) : Decidable (Fits z) := inferInstanceAs (Decidable (_ ∧ _))

/-- Every intermediate result is there and fits. -/
def Arith.Sound : Arith → Prop
  | .literal _ => True
  | .op o l r => l.Sound ∧ r.Sound ∧ ∃ z, (Arith.op o l r).value = some z ∧ Fits z

/-! ### Modulo `2^64` -/

/-- An operation on 64-bit words. -/
def ArithOp.wrapped : ArithOp → Int64 → Int64 → Int64
  | .add, a, b => a + b
  | .sub, a, b => a - b
  | .mul, a, b => a * b
  | .div, a, b => a / b

/-- The value of a tree in 64-bit words. -/
def Arith.wrapped : Arith → Int64
  | .literal n => n
  | .op o l r => o.wrapped l.wrapped r.wrapped

/-- The divisions of a tree with their operands, in the order of the evaluation. -/
def Arith.divisions : Arith → List (Int64 × Int64)
  | .literal _ => []
  | .op o l r => l.divisions ++ r.divisions ++ if o = .div then [(l.wrapped, r.wrapped)] else []

/-- A division without a quotient in `i64`. -/
def NoQuotient (d : Int64 × Int64) : Prop := d.2 = 0 ∨ divOverflows d.1 d.2

instance (d : Int64 × Int64) : Decidable (NoQuotient d) := inferInstanceAs (Decidable (_ ∨ _))

/-- The first of them. -/
def Arith.firstFault (a : Arith) : Option (Int64 × Int64) :=
  a.divisions.find? fun d => decide (NoQuotient d)

/-- How an evaluation ends after the divisions with this first fault. -/
def faultEnd (v : Int64) : Option (Int64 × Int64) → Out Value
  | none => .ok (.int v)
  | some d => if d.2 = 0 then .err "Div by zero" else .panic

/-! ### What an evaluation comes to -/

section
variable {fuel : ℕ} {env : Env} {net : Net}

/-- One operation on the values of its operands. -/
theorem onValues_toBin (o : ArithOp) (a b : Int64) :
    o.toBin.onValues netMachine (.int a) (.int b) net =
      (faultEnd (o.wrapped a b)
        ((if o = .div then [(a, b)] else []).find? fun d => decide (NoQuotient d)), net) := by
  cases o with
  | div =>
      by_cases hb : b = 0
      · simp [ArithOp.toBin, BinOp.onValues, BinOp.apply, NoQuotient, faultEnd, hb]
      · by_cases hover : divOverflows a b
        · simp [ArithOp.toBin, BinOp.onValues, BinOp.apply, NoQuotient, faultEnd, netMachine, hb,
            hover, Comp.bind_apply]
        · simp [ArithOp.toBin, BinOp.onValues, BinOp.apply, NoQuotient, faultEnd, netMachine, hb,
            hover, ArithOp.wrapped]
  | _ => rfl

theorem firstFault_op (o : ArithOp) (l r : Arith) :
    (Arith.op o l r).firstFault = (l.firstFault.or r.firstFault).or
      ((if o = .div then [(l.wrapped, r.wrapped)] else []).find? fun d => decide (NoQuotient d)) := by
  rw [Arith.firstFault, Arith.divisions, List.find?_append, List.find?_append]
  rfl

/-- **How an evaluation ends** is decided by the first division without a quotient. -/
theorem evaluate_toIr (a : Arith) (h : a.depth ≤ fuel) :
    evaluate fuel env a.toIr net = (faultEnd a.wrapped a.firstFault, net) := by
  induction a generalizing fuel with
  | literal n =>
      obtain ⟨fuel, rfl⟩ : ∃ f, fuel = f + 1 := ⟨fuel - 1, by simp [Arith.depth] at h; omega⟩
      rfl
  | op o l r ihl ihr =>
      rw [Arith.depth] at h
      obtain ⟨fuel, rfl⟩ : ∃ f, fuel = f + 1 := ⟨fuel - 1, by omega⟩
      have hl := @ihl fuel (by omega)
      have hr := @ihr fuel (by omega)
      have hstep : evaluate (fuel + 1) env (Arith.op o l r).toIr net =
          (evaluate fuel env l.toIr >>= fun a => evaluate fuel env r.toIr >>= fun b =>
            o.toBin.onValues netMachine a b) net := rfl
      rw [hstep, Comp.bind_apply, hl, firstFault_op]
      cases hfl : l.firstFault with
      | some d => by_cases hd : d.2 = 0 <;> simp [faultEnd, hd]
      | none =>
          simp only [faultEnd, Comp.bind_apply, hr, Option.none_or]
          cases hfr : r.firstFault with
          | some d => by_cases hd : d.2 = 0 <;> simp [hd]
          | none =>
              simp only [faultEnd, onValues_toBin, Option.none_or]
              rfl

end

/-! ### Exact results -/

theorem fits_toInt (n : Int64) : Fits n.toInt := ⟨n.le_toInt, n.toInt_lt⟩

/-- A result that fits is the one in 64-bit words. -/
theorem toInt_wrapped (o : ArithOp) (a b : Int64) {z : ℤ} (h : o.exact a.toInt b.toInt = some z)
    (hz : Fits z) : (o.wrapped a b).toInt = z := by
  have hbmod : z.bmod (2 ^ 64) = z := Int.bmod_eq_of_le hz.1 hz.2
  cases o with
  | add =>
      obtain rfl := Option.some.inj h
      rw [ArithOp.wrapped, Int64.toInt_add, hbmod]
  | sub =>
      obtain rfl := Option.some.inj h
      rw [ArithOp.wrapped, Int64.toInt_sub, hbmod]
  | mul =>
      obtain rfl := Option.some.inj h
      rw [ArithOp.wrapped, Int64.toInt_mul, hbmod]
  | div =>
      rw [ArithOp.exact] at h
      split_ifs at h
      obtain rfl := Option.some.inj h
      rw [ArithOp.wrapped, Int64.toInt_div, hbmod]

/-- The quotient of an `i64` fits, but for that of the least by `-1`. -/
theorem fits_tdiv_iff {x y : ℤ} (hx : Fits x) (hy : y ≠ 0) :
    Fits (x.tdiv y) ↔ ¬ (x = -2 ^ 63 ∧ y = -1) := by
  obtain ⟨hlow, hhigh⟩ := hx
  rcases eq_or_ne y (-1) with rfl | hy1
  · rw [Int.tdiv_neg, Int.tdiv_one, Fits]
    omega
  · refine iff_of_true ?_ fun h => hy1 h.2
    rcases eq_or_ne y 1 with rfl | hy2
    · rw [Int.tdiv_one]
      exact ⟨hlow, hhigh⟩
    · -- the divisor is at least 2 on either side of 0
      have hhalf : x.natAbs / y.natAbs ≤ x.natAbs / 2 :=
        Nat.div_le_div_left (by omega) (by omega)
      have habs : (x.tdiv y).natAbs = x.natAbs / y.natAbs := Int.natAbs_tdiv x y
      unfold Fits
      omega

/-- **A quotient is there and fits** unless the division has none in `i64`. -/
theorem exact_div_fits_iff (a b : Int64) :
    (∃ z, ArithOp.div.exact a.toInt b.toInt = some z ∧ Fits z) ↔ ¬ NoQuotient (a, b) := by
  have hzero : b = 0 ↔ b.toInt = 0 := by
    rw [← Int64.toInt_inj]
    rfl
  have hleast : a = Int64.minValue ↔ a.toInt = -2 ^ 63 := by
    rw [← Int64.toInt_inj, Int64.toInt_minValue]
  have hminus : b = -1 ↔ b.toInt = -1 := by
    rw [← Int64.toInt_inj]
    rfl
  simp only [NoQuotient, divOverflows, hzero, hleast, hminus, ArithOp.exact]
  by_cases hb : b.toInt = 0
  · simp [hb]
  · simp [hb, fits_tdiv_iff (fits_toInt a) hb]

/-- A tree whose intermediate results all fit has the value of its words and no division without
a quotient. -/
theorem Arith.Sound.exact {a : Arith} (h : a.Sound) :
    a.value = some a.wrapped.toInt ∧ a.firstFault = none := by
  induction a with
  | literal n => exact ⟨rfl, rfl⟩
  | op o l r ihl ihr =>
      obtain ⟨hl, hr, z, hz, hfits⟩ := h
      obtain ⟨hlv, hlf⟩ := ihl hl
      obtain ⟨hrv, hrf⟩ := ihr hr
      have hexact : o.exact l.wrapped.toInt r.wrapped.toInt = some z := by
        simpa [Arith.value, hlv, hrv] using hz
      constructor
      · rw [hz, Arith.wrapped, toInt_wrapped o _ _ hexact hfits]
      · rw [firstFault_op, hlf, hrf]
        cases o with
        | div =>
            have hq := (exact_div_fits_iff l.wrapped r.wrapped).1 ⟨z, hexact, hfits⟩
            simp [hq]
        | _ => rfl

/-! ### When contract arithmetic is exact -/

/-- The outcome is the exact value, or an error where an intermediate result does not fit or a
divisor is zero. -/
def ExactOrRefused (a : Arith) (out : Out Value) : Prop :=
  (∀ v, out = .ok (.int v) → a.value = some v.toInt) ∧ (¬ a.Sound → ∃ msg, out = .err msg)

/-- The first division without a quotient, all operands in 64-bit words, has the divisor 0. -/
def DividesByZero (a : Arith) : Prop := ∃ d ∈ a.firstFault, d.2 = 0

instance (a : Arith) : Decidable (DividesByZero a) :=
  match h : a.firstFault with
  | none => .isFalse (by simp [DividesByZero, h])
  | some d => decidable_of_iff (d.2 = 0) (by simp [DividesByZero, h])

/-- **When contract arithmetic is exact or refused.**  An evaluation of a tree, with fuel for its
depth, ends with the exact value, or with an error where there is none in `i64`, if and only if
all intermediate results fit, or the first division without a quotient is one by zero. -/
theorem exactOrRefused_iff (a : Arith) {fuel : ℕ} (h : a.depth ≤ fuel) (env : Env) (net : Net) :
    ExactOrRefused a (evaluate fuel env a.toIr net).1 ↔ a.Sound ∨ DividesByZero a := by
  rw [evaluate_toIr a h]
  constructor
  · rintro ⟨-, hrefused⟩
    by_contra hnot
    obtain ⟨hsound, hzero⟩ := not_or.1 hnot
    obtain ⟨msg, hmsg⟩ := hrefused hsound
    cases hf : a.firstFault with
    | none => simp [hf, faultEnd] at hmsg
    | some d =>
        have hd : d.2 ≠ 0 := fun hd => hzero ⟨d, hf, hd⟩
        simp [hf, faultEnd, hd] at hmsg
  · rintro (hsound | ⟨d, hf, hd⟩)
    · obtain ⟨hvalue, hnone⟩ := hsound.exact
      refine ⟨fun v hv => ?_, fun hn => absurd hsound hn⟩
      have : a.wrapped = v := by simpa [hnone, faultEnd] using hv
      rw [hvalue, this]
    · have hf : a.firstFault = some d := hf
      simp [ExactOrRefused, hf, faultEnd, hd]

/-- `div 7 sub 2 2` is refused. -/
theorem div_by_zero_refused :
    ExactOrRefused (.op .div (.literal 7) (.op .sub (.literal 2) (.literal 2)))
      (evaluate 3 [] (Arith.op .div (.literal 7) (.op .sub (.literal 2) (.literal 2))).toIr
        fun _ => 0).1 :=
  (exactOrRefused_iff _ (by decide) _ _).2 (.inr (by decide))

/-- The greatest `i64` and 1 make the least. -/
theorem sum_wraps : ¬ ∀ (a : Arith) (fuel : ℕ) (env : Env) (net : Net), a.depth ≤ fuel →
    ExactOrRefused a (evaluate fuel env a.toIr net).1 := by
  intro h
  obtain ⟨hexact, -⟩ := h (.op .add (.literal Int64.maxValue) (.literal 1)) 2 [] (fun _ => 0)
    (by decide)
  have hv := hexact Int64.minValue rfl
  exact absurd (Option.some.inj hv) (by decide)

end Autarky
end AiOsExchange
