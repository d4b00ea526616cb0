/-
# Numerals: `str::parse::<i64>` and `str::parse::<f64>`

The last resort of `Parser::parse` (`autarky_vm/src/parser.rs`): a word that is no keyword is
an integer if `parse::<i64>` accepts it, else a float if `parse::<f64>` does, else a variable.

| type | accepted |
| --- | --- |
| `i64` | an optional sign and at least one digit, the number within `-2^63 … 2^63 - 1` |
| `f64` | an optional sign and `inf`, `infinity`, `nan` in any case, or digits with at most one point and at least one digit, and an optional exponent |

A float is rounded to the nearest of the format, ties to even; beyond the largest it is an
infinity.
-/

import AiOsExchange.Autarky.Ast
import Mathlib.Algebra.Order.Ring.Int

namespace AiOsExchange
namespace Autarky

/-- The value of a decimal digit. -/
def digitVal (c : Char) : Option ℕ :=
  if '0' ≤ c ∧ c ≤ '9' then some (c.toNat - 48) else none

/-- The leading digits of a text, as their number of digits and value, and what follows. -/
def takeDigits : ℕ → ℕ → List Char → (ℕ × ℕ) × List Char
  | count, value, [] => ((count, value), [])
  | count, value, c :: cs =>
      match digitVal c with
      | some d => takeDigits (count + 1) (10 * value + d) cs
      | none => ((count, value), c :: cs)

/-- An optional sign, `true` for a minus. -/
def takeSign : List Char → Bool × List Char
  | '+' :: cs => (false, cs)
  | '-' :: cs => (true, cs)
  | cs => (false, cs)

/-- `word.parse::<i64>()`. -/
def parseI64 (word : Word) : Option Int64 :=
  let (neg, cs) := takeSign word
  match takeDigits 0 0 cs with
  | ((count, value), []) =>
      let n : ℤ := if neg then -value else value
      if count ≠ 0 ∧ -2 ^ 63 ≤ n ∧ n < 2 ^ 63 then some (Int64.ofInt n) else none
  | _ => none

/-! ### Floats -/

/-- The quotient rounded to the nearest integer, ties to even. -/
def roundDiv (n d : ℕ) : ℕ :=
  let q := n / d
  let r := n % d
  if 2 * r < d ∨ (2 * r = d ∧ q % 2 = 0) then q else q + 1

/-- The exponent of the last place of `n / d` in a 53-bit significand, at least `-1074`. -/
def ulpExponent (n d : ℕ) : ℤ :=
  let k : ℤ := (n.log2 : ℤ) - d.log2
  let below : Bool := if 0 ≤ k then n < d * 2 ^ k.toNat else n * 2 ^ (-k).toNat < d
  max (-1074) ((if below then k - 1 else k) - 52)

/-- The bits of the float nearest to `n / d`, without the sign.  A significand that rounds up
to `2 ^ 53` carries into the exponent by itself. -/
def nearestBits (n d : ℕ) : ℕ :=
  if n = 0 then 0
  else
    let e := ulpExponent n d
    let q := if 0 ≤ e then roundDiv n (d * 2 ^ e.toNat) else roundDiv (n * 2 ^ (-e).toNat) d
    min 0x7FF0000000000000 ((e + 1074).toNat * 2 ^ 52 + q)

/-- The float with the given sign and bits. -/
def signed (neg : Bool) (bits : ℕ) : F64 :=
  ⟨UInt64.ofNat (if neg then 2 ^ 63 + bits else bits)⟩

/-- The exponent after the digits, `e` or `E`, a sign and at least one digit. -/
def takeExponent : List Char → Option ℤ
  | [] => some 0
  | c :: cs =>
      if c = 'e' ∨ c = 'E' then
        let (neg, cs) := takeSign cs
        match takeDigits 0 0 cs with
        | ((count, value), []) => if count = 0 then none else some (if neg then -value else value)
        | _ => none
      else none

/-- The decimal `value · 10 ^ exp`, rounded. -/
def decimalBits (value : ℕ) (exp : ℤ) : ℕ :=
  if 0 ≤ exp then nearestBits (value * 10 ^ exp.toNat) 1 else nearestBits value (10 ^ (-exp).toNat)

/-- `word.parse::<f64>()`. -/
def parseF64 (word : Word) : Option F64 :=
  let (neg, cs) := takeSign word
  let lower := cs.map Char.toLower
  if lower = "inf".toList ∨ lower = "infinity".toList then some (signed neg 0x7FF0000000000000)
  else if lower = "nan".toList then some (signed neg 0x7FF8000000000000)
  else
    let ((whole, value), rest) := takeDigits 0 0 cs
    let ((fraction, value), rest) := match rest with
      | '.' :: cs => takeDigits 0 value cs
      | cs => ((0, value), cs)
    if whole + fraction = 0 then none
    else (takeExponent rest).map fun exp => signed neg (decimalBits value (exp - fraction))

end Autarky
end AiOsExchange
