/-
# What the binary interface accepts

`autarky_vm/src/abi.rs`.  Bytes that are accepted are the encoding of what they are read as
(`parseBytes_sound`), so the interface could have one text a payload, up to the case of its letters.
It has more: `u8::from_str_radix` takes a plus in front of a single digit, and the text of a byte
below 16 may begin with a plus in place of its zero.  Without a plus a text is canonical
(`deserialize_canonical_iff`).
-/

import AiOsExchange.Autarky.Malformed
import Mathlib.Data.List.Induction

namespace AiOsExchange
namespace Autarky

open Computations

/-! ### Accepted bytes -/

/-- The number that some bytes stand for, the highest first. -/
abbrev ofBeBytes (bytes : List UInt8) : ℕ := bytes.foldl (fun (value : ℕ) b => 256 * value + b.toNat) 0

theorem ofBeBytes_concat (bytes : List UInt8) (b : UInt8) :
    ofBeBytes (bytes ++ [b]) = 256 * ofBeBytes bytes + b.toNat := by
  rw [ofBeBytes, List.foldl_append, List.foldl_cons, List.foldl_nil]

/-- The number of some bytes has these bytes. -/
theorem beBytes_ofBeBytes {k : ℕ} {bytes : List UInt8} (h : bytes.length = k) :
    beBytes k (ofBeBytes bytes) = bytes := by
  induction k generalizing bytes with
  | zero => rw [List.length_eq_zero_iff.1 h, beBytes]
  | succ k ih =>
      rcases List.eq_nil_or_concat' bytes with rfl | ⟨init, last, rfl⟩
      · simp at h
      · have hlt := last.toNat_lt
        have hlast : UInt8.ofNat (256 * ofBeBytes init + last.toNat) = last := by
          apply UInt8.toNat_inj.1
          rw [UInt8.toNat_ofNat']
          omega
        rw [ofBeBytes_concat, beBytes, hlast,
          show (256 * ofBeBytes init + last.toNat) / 256 = ofBeBytes init by omega,
          ih (by simpa using h)]

theorem ofBeBytes_lt (bytes : List UInt8) : ofBeBytes bytes < 256 ^ bytes.length := by
  induction bytes using List.reverseRecOn with
  | nil => simp
  | append_singleton init last ih =>
      have hlt := last.toNat_lt
      rw [ofBeBytes_concat, List.length_append, List.length_singleton, Nat.pow_succ]
      omega

/-- **Eight bytes are those of the integer they are read as.** -/
theorem beBytes_i64FromBeBytes {bytes : List UInt8} (h : bytes.length = 8) :
    beBytes 8 ((i64FromBeBytes bytes).toInt % 2 ^ 64).toNat = bytes := by
  have hlt := ofBeBytes_lt bytes
  rw [h] at hlt
  have hint : (i64FromBeBytes bytes).toInt = (ofBeBytes bytes : ℤ).bmod (2 ^ 64) := Int64.toInt_ofInt
  have hmod : (i64FromBeBytes bytes).toInt % 2 ^ 64 = (ofBeBytes bytes : ℤ) := by
    rw [hint]
    refine Int.bmod_emod.trans (Int.emod_eq_of_lt (by omega) (by omega))
  rw [hmod, Int.toNat_natCast, beBytes_ofBeBytes h]

/-- A sequence that returned a value did so in both parts. -/
theorem except_bind_eq_ok {α β : Type} {x : Except String α} {f : α → Except String β} {b : β}
    (h : x >>= f = .ok b) : ∃ a, x = .ok a ∧ f a = .ok b := by
  cases x with
  | error msg => cases h
  | ok a => exact ⟨a, rfl, h⟩

/-- **What `parse_bytes` accepts is the encoding of a payload**, and what it leaves follows it. -/
theorem parseBytes_sound {n : ℕ} {bytes : List UInt8} (hn : bytes.length < n) {e : Expr}
    {rest : { rest : List UInt8 // rest.length < bytes.length }} (h : parseBytes bytes = .ok (e, rest)) :
    ∃ q : Payload, q.toExpr = e ∧ bytes = q.encode ++ rest.1 := by
  induction n generalizing bytes e with
  | zero => omega
  | succ n ih =>
      cases bytes with
      | nil =>
          rw [parseBytes] at h
          cases h
      | cons tag bytes =>
          have hlen : bytes.length < n := by simpa using hn
          rw [parseBytes] at h
          split_ifs at h with h0 h8 h1 h2 h3
          · cases h
            refine ⟨.int (i64FromBeBytes (bytes.take 8)), rfl, ?_⟩
            rw [Payload.encode, beBytes_i64FromBeBytes (by rw [List.length_take]; omega),
              List.cons_append, List.take_append_drop, h0]
          · obtain ⟨p, hl, h⟩ := except_bind_eq_ok h
            obtain ⟨p', hr, h⟩ := except_bind_eq_ok h
            obtain ⟨q, hq, hbytes⟩ := ih hlen hl
            obtain ⟨q', hq', hbytes'⟩ := ih (p.2.2.trans hlen) hr
            cases h
            refine ⟨.pair q q', by rw [Payload.toExpr, hq, hq'], ?_⟩
            rw [Payload.encode, List.cons_append, List.append_assoc, ← hbytes', ← hbytes, h1]
          · obtain ⟨p, hp, h⟩ := except_bind_eq_ok h
            obtain ⟨q, hq, hbytes⟩ := ih hlen hp
            cases h
            exact ⟨.left q, by rw [Payload.toExpr, hq],
              by rw [Payload.encode, List.cons_append, ← hbytes, h2]⟩
          · obtain ⟨p, hp, h⟩ := except_bind_eq_ok h
            obtain ⟨q, hq, hbytes⟩ := ih hlen hp
            cases h
            exact ⟨.right q, by rw [Payload.toExpr, hq],
              by rw [Payload.encode, List.cons_append, ← hbytes, h3]⟩

theorem Payload.toExpr_inj {p q : Payload} (h : p.toExpr = q.toExpr) : p = q := by
  induction p generalizing q with
  | int n => cases q <;> simp_all [Payload.toExpr]
  | pair l r ihl ihr =>
      cases q with
      | pair l' r' =>
          obtain ⟨hl, hr⟩ := Expr.pair.inj h
          rw [ihl hl, ihr hr]
      | _ => cases h
  | left inner ih =>
      cases q with
      | left inner' => rw [ih (Expr.left.inj h)]
      | _ => cases h
  | right inner ih =>
      cases q with
      | right inner' => rw [ih (Expr.right.inj h)]
      | _ => cases h

/-! ### Accepted text -/

/-- The text of some bytes in small letters. -/
abbrev lowerHexText (bytes : List UInt8) : List Char := hexText (fun _ => false) bytes

theorem of_decodePairs {s : List Char} {bytes : List UInt8} (h : decodePairs s = .ok bytes) :
    s = [] ∧ bytes = [] ∨ ∃ c d cs b bytes', s = c :: d :: cs ∧ bytes = b :: bytes' ∧
      u8FromStrRadix [c, d] = .ok b ∧ decodePairs cs = .ok bytes' := by
  match s with
  | [] =>
      cases h
      exact .inl ⟨rfl, rfl⟩
  | [c] =>
      rw [decodePairs] at h
      split_ifs at h
  | c :: d :: cs =>
      rw [decodePairs] at h
      split_ifs at h
      split at h
      · cases h
      · next b bytes' hb hcs =>
          cases h
          exact .inr ⟨c, d, cs, b, bytes', rfl, rfl, hb, hcs⟩
      · next b hb hno => exact absurd h (hno bytes)

/-- The first character of a byte in small letters. -/
theorem toLower_first {c d : Char} {b : UInt8} (h : u8FromStrRadix [c, d] = .ok b) :
    c.toLower = if c = '+' then '+' else hexDigit false (b.toNat / 16) := by
  obtain ⟨-, -, hc⟩ := u8FromStrRadix_pair h
  split_ifs at hc ⊢ with hplus
  · rw [hplus]
    rfl
  · exact hc

theorem first_ne_plus (b : UInt8) : hexDigit false (b.toNat / 16) ≠ '+' := by
  have hb := b.toNat_lt
  exact (hexDigit_ascii false (by omega)).2

/-- **A text is that of its bytes, but for the plus signs.** -/
theorem lower_eq_hexText_iff {s : List Char} {bytes : List UInt8} (h : decodePairs s = .ok bytes) :
    s.map Char.toLower = lowerHexText bytes ↔ '+' ∉ s := by
  induction bytes generalizing s with
  | nil =>
      rcases of_decodePairs h with ⟨rfl, -⟩ | ⟨c, d, cs, b, bytes', -, hnil, -⟩
      · simp [hexText]
      · cases hnil
  | cons b bytes ih =>
      rcases of_decodePairs h with ⟨-, hnil⟩ | ⟨c, d, cs, b', bytes', rfl, hcons, hb, hcs⟩
      · cases hnil
      · obtain ⟨rfl, rfl⟩ := List.cons.inj hcons
        obtain ⟨hd, hdlow, -⟩ := u8FromStrRadix_pair hb
        have hfirst := toLower_first hb
        have hne := first_ne_plus b
        rw [List.map_cons, List.map_cons, lowerHexText, hexText, List.cons.injEq, List.cons.injEq,
          hfirst, hdlow, ih hcs, List.mem_cons, List.mem_cons, not_or, not_or]
        split_ifs with hc
        · simp [hc, hne.symm]
        · simp [hd.symm, Ne.symm hc]

/-- **Two texts of the same bytes differ in case only if their plus signs stand at the same
places**, and only then. -/
theorem lower_eq_iff {s s' : List Char} {bytes : List UInt8} (h : decodePairs s = .ok bytes)
    (h' : decodePairs s' = .ok bytes) :
    s.map Char.toLower = s'.map Char.toLower ↔ s.map (· == '+') = s'.map (· == '+') := by
  induction bytes generalizing s s' with
  | nil =>
      rcases of_decodePairs h with ⟨rfl, -⟩ | ⟨c, d, cs, b, bytes', -, hnil, -⟩
      · rcases of_decodePairs h' with ⟨rfl, -⟩ | ⟨c, d, cs, b, bytes', -, hnil, -⟩
        · exact iff_of_true rfl rfl
        · cases hnil
      · cases hnil
  | cons b bytes ih =>
      rcases of_decodePairs h with ⟨-, hnil⟩ | ⟨c, d, cs, b₁, bytes₁, rfl, hcons, hb, hcs⟩
      · cases hnil
      rcases of_decodePairs h' with ⟨-, hnil⟩ | ⟨c', d', cs', b₂, bytes₂, rfl, hcons', hb', hcs'⟩
      · cases hnil
      obtain ⟨rfl, rfl⟩ := List.cons.inj hcons
      obtain ⟨rfl, rfl⟩ := List.cons.inj hcons'
      obtain ⟨hd, hdlow, -⟩ := u8FromStrRadix_pair hb
      obtain ⟨hd', hdlow', -⟩ := u8FromStrRadix_pair hb'
      have hfirst := toLower_first hb
      have hfirst' := toLower_first hb'
      have hne := first_ne_plus b
      simp only [List.map_cons, List.cons.injEq, hdlow, hdlow', ih hcs hcs', beq_eq_false_iff_ne.2 hd,
        beq_eq_false_iff_ne.2 hd', true_and, hfirst, hfirst']
      by_cases hc : c = '+' <;> by_cases hc' : c' = '+' <;> simp [hc, hc', hne, hne.symm]

/-- What is accepted has an even length and is decoded to the encoding of a payload. -/
theorem of_deserializeHex {s : List Char} {e : Expr} (h : deserializeHex s = .ok e) :
    ∃ p : Payload, p.toExpr = e ∧ decodePairs s = .ok p.encode := by
  have hpairs (bytes : List UInt8) (hb : decodeHex s = .ok bytes) : decodePairs s = .ok bytes := by
    rw [decodeHex_eq] at hb
    split_ifs at hb
    exact hb
  rw [deserializeHex] at h
  cases hbytes : decodeHex s with
  | ok bytes =>
      rw [hbytes] at h
      simp only at h
      cases hp : parseBytes bytes with
      | error msg => rw [hp] at h; cases h
      | ok p =>
          rw [hp] at h
          simp only at h
          split_ifs at h with hempty
          cases h
          obtain ⟨q, hq, happ⟩ := parseBytes_sound (Nat.lt_succ_self _) hp
          rw [List.isEmpty_iff.1 hempty, List.append_nil] at happ
          exact ⟨q, hq, happ ▸ hpairs bytes hbytes⟩
  | err msg => rw [hbytes] at h; cases h
  | panic => rw [hbytes] at h; cases h
  | more => rw [hbytes] at h; cases h

/-- **The interface accepts only its own encodings, but for plus signs.**  An accepted text is the
text of its payload exactly if it has no plus, and two texts of one payload differ only in case
exactly if their plus signs stand at the same places. -/
theorem deserialize_canonical_iff {s s' : List Char} {e : Expr} (h : deserializeHex s = .ok e)
    (h' : deserializeHex s' = .ok e) :
    ((∃ p : Payload, p.toExpr = e ∧ s.map Char.toLower = lowerHexText p.encode) ↔ '+' ∉ s) ∧
      (s.map Char.toLower = s'.map Char.toLower ↔ s.map (· == '+') = s'.map (· == '+')) := by
  obtain ⟨p, hp, hs⟩ := of_deserializeHex h
  obtain ⟨p', hp', hs'⟩ := of_deserializeHex h'
  obtain rfl : p' = p := Payload.toExpr_inj (hp'.trans hp.symm)
  refine ⟨?_, lower_eq_iff hs hs'⟩
  rw [← lower_eq_hexText_iff hs]
  constructor
  · rintro ⟨q, hq, hlow⟩
    rwa [Payload.toExpr_inj (hq.trans hp.symm)] at hlow
  · exact fun hlow => ⟨p', hp, hlow⟩

/-- The integer zero, with and without a plus. -/
def plusText : List Char := "+00000000000000000".toList

def zeroText : List Char := "000000000000000000".toList

theorem deserialize_zeroText : deserializeHex zeroText = .ok (.intLiteral 0) := by
  have hread := (reads_encode (.int 0)).readAll_whole
    "ABI Error: Trailing bytes found after parsing payload"
  have htext : zeroText = lowerHexText (Payload.int 0).encode := by decide
  rw [htext, deserializeHex_hexText, hread]
  rfl

theorem deserialize_plusText : deserializeHex plusText = .ok (.intLiteral 0) := by
  have hsame : decodeHex plusText = decodeHex zeroText := by decide
  have h := deserialize_zeroText
  rw [deserializeHex, ← hsame] at h
  exact h

theorem deserialize_canonical_zero :
    ((∃ p : Payload, p.toExpr = .intLiteral 0 ∧ zeroText.map Char.toLower = lowerHexText p.encode) ↔
        '+' ∉ zeroText) ∧
      (zeroText.map Char.toLower = plusText.map Char.toLower ↔
        zeroText.map (· == '+') = plusText.map (· == '+')) :=
  deserialize_canonical_iff deserialize_zeroText deserialize_plusText

/-- **A plus is accepted**, and is no part of an encoding. -/
theorem deserialize_plus_accepted :
    ¬ (∀ s e, deserializeHex s = .ok e →
        ∃ p : Payload, p.toExpr = e ∧ s.map Char.toLower = lowerHexText p.encode) ∧
      ¬ ∀ s s' e, deserializeHex s = .ok e → deserializeHex s' = .ok e →
        s.map Char.toLower = s'.map Char.toLower := by
  constructor
  · intro h
    obtain ⟨p, hp, hlow⟩ := h _ _ deserialize_plusText
    obtain rfl : p = .int 0 := Payload.toExpr_inj (q := .int 0) hp
    revert hlow
    decide
  · intro h
    have hlow := h _ _ _ deserialize_plusText deserialize_zeroText
    revert hlow
    decide

end Autarky
end AiOsExchange
