/-
# Malformed text at the binary interface

`autarky_vm/src/abi.rs`.  The hexadecimal text is cut into pieces of two bytes, whatever characters
these belong to, and the pieces are decoded in turn.  Along the characters (`decodePairs`):

| the text goes on with | `decode_hex` |
| --- | --- |
| two characters of one byte | decodes them, or stops with an error |
| a character of two bytes | stops with an error |
| anything else | panics, the cut being inside a character |

So a text halts the kernel exactly if it gets to a character that it cannot cut
(`deserialize_ended_iff`).  The byte parser behind it has no such case, each of its slices being in
range (`parseSliced_follows`).
-/

import AiOsExchange.Autarky.Abi
import AiOsExchange.Autarky.Words

namespace AiOsExchange
namespace Autarky

open Computations

/-! ### Decoding along the characters -/

/-- `decode_hex` of a text of even length. -/
def decodePairs : List Char → Out (List UInt8)
  | [] => .ok []
  | [c] => if c.utf8Size = 2 then .err "invalid digit found in string" else .panic
  | c :: d :: cs =>
      if c.utf8Size = 2 then .err "invalid digit found in string"
      else if c.utf8Size = 1 ∧ d.utf8Size = 1 then
        match u8FromStrRadix [c, d], decodePairs cs with
        | .error msg, _ => .err msg
        | .ok b, .ok bytes => .ok (b :: bytes)
        | .ok _, out => out
      else .panic

/-- The characters of a digit are single bytes. -/
theorem lt_of_hexVal {c : Char} {v : ℕ} (h : hexVal c = some v) : c.toNat < 128 := by
  have hle {d : Char} (hcd : c ≤ d) : c.toNat ≤ d.toNat := UInt32.le_iff_toNat_le.1 hcd
  rw [hexVal] at h
  split_ifs at h with h1 h2 h3
  · exact Nat.lt_of_le_of_lt (hle h1.2) (by decide)
  · exact Nat.lt_of_le_of_lt (hle h2.2) (by decide)
  · exact Nat.lt_of_le_of_lt (hle h3.2) (by decide)

/-- **A digit is that of its value**, up to its case. -/
theorem of_hexVal {c : Char} {v : ℕ} (h : hexVal c = some v) :
    v < 16 ∧ c.toLower = hexDigit false v ∧ c ≠ '+' ∧ c.utf8Size = 1 := by
  have hall : ∀ n < 128, ((hexVal (Char.ofNat n)).all fun v =>
      decide (v < 16 ∧ (Char.ofNat n).toLower = hexDigit false v ∧ Char.ofNat n ≠ '+' ∧
        (Char.ofNat n).utf8Size = 1)) = true := by
    decide
  have hc := hall c.toNat (lt_of_hexVal h)
  rw [Char.ofNat_toNat, h, Option.all_some] at hc
  exact of_decide_eq_true hc

/-- One character is a byte exactly if it is a digit. -/
theorem u8Digits_single (c : Char) : u8Digits 0 [c] =
    match hexVal c with
    | some v => .ok (UInt8.ofNat v)
    | none => .error "invalid digit found in string" := by
  rw [u8Digits]
  cases h : hexVal c with
  | none => rfl
  | some v =>
      have hv := (of_hexVal h).1
      simp only
      rw [if_pos (by omega), u8Digits, Nat.mul_zero, Nat.zero_add]

/-- A character of two bytes is no digit. -/
theorem u8FromStrRadix_wide {c : Char} (h : c.utf8Size = 2) :
    u8FromStrRadix [c] = .error "invalid digit found in string" := by
  have hnone : hexVal c = none := by
    rw [Option.eq_none_iff_forall_ne_some]
    intro v hv
    have := (of_hexVal hv).2.2.2
    omega
  unfold u8FromStrRadix
  split
  · next heq => cases heq
  · rfl
  · next heq => cases heq
  · rw [u8Digits_single, hnone]

/-- **Two characters that are read as a byte** are its two digits, or a plus and its only one. -/
theorem u8FromStrRadix_pair {c d : Char} {b : UInt8} (h : u8FromStrRadix [c, d] = .ok b) :
    d ≠ '+' ∧ d.toLower = hexDigit false (b.toNat % 16) ∧
      if c = '+' then b.toNat < 16 else c.toLower = hexDigit false (b.toNat / 16) := by
  by_cases hc : c = '+'
  · subst hc
    rw [show u8FromStrRadix ['+', d] = u8Digits 0 [d] from rfl, u8Digits_single] at h
    cases hd : hexVal d with
    | none => rw [hd] at h; cases h
    | some v =>
        obtain ⟨hv, hlow, hplus, -⟩ := of_hexVal hd
        rw [hd] at h
        obtain rfl : UInt8.ofNat v = b := Except.ok.inj h
        have hb : (UInt8.ofNat v).toNat = v := UInt8.toNat_ofNat_of_lt' (by change v < 256; omega)
        rw [if_pos rfl, hb, Nat.mod_eq_of_lt hv]
        exact ⟨hplus, hlow, hv⟩
  · have hdigits : u8FromStrRadix [c, d] = u8Digits 0 [c, d] := by
      unfold u8FromStrRadix
      split <;> simp_all
    rw [hdigits, u8Digits] at h
    cases hhi : hexVal c with
    | none => rw [hhi] at h; cases h
    | some v =>
        obtain ⟨hv, hvlow, -, -⟩ := of_hexVal hhi
        rw [hhi] at h
        simp only at h
        rw [if_pos (by omega), u8Digits] at h
        cases hlo : hexVal d with
        | none => rw [hlo] at h; cases h
        | some w =>
            obtain ⟨hw, hwlow, hplus, -⟩ := of_hexVal hlo
            rw [hlo] at h
            simp only at h
            rw [if_pos (by omega), u8Digits] at h
            obtain rfl := Except.ok.inj h
            have hb : (UInt8.ofNat (16 * (16 * 0 + v) + w)).toNat = 16 * v + w := by
              rw [UInt8.toNat_ofNat_of_lt' (by change _ < 256; omega)]
              omega
            rw [if_neg hc, hb, show (16 * v + w) % 16 = w by omega,
              show (16 * v + w) / 16 = v by omega]
            exact ⟨hplus, hwlow, hvlow⟩

/-- **Cutting by byte position is reading along the characters.** -/
theorem decodeAt_eq {pre cs : List Char} {k n : ℕ} (hpre : utf8Len pre = 2 * k)
    (hcs : utf8Len cs = 2 * n) :
    decodeAt (pre ++ cs) ((List.range' k n).map (2 * ·)) = decodePairs cs := by
  induction n generalizing pre cs k with
  | zero =>
      have hlen := length_le_utf8Len cs
      obtain rfl : cs = [] := List.length_eq_zero_iff.1 (by omega)
      rfl
  | succ n ih =>
      cases cs with
      | nil => simp at hcs
      | cons c cs =>
          have hslice : sliceFrom (pre ++ c :: cs) (2 * k) = some (c :: cs) := by
            rw [← hpre, sliceFrom_append]
          have hpos := c.utf8Size_pos
          rw [List.range'_succ, List.map_cons, decodeAt, hslice, Option.bind_some]
          by_cases h2 : c.utf8Size = 2
          · have hcut : sliceTo (c :: cs) 2 = some [c] := by
              rw [sliceTo, if_pos (by omega), h2, sliceTo, Option.map_some]
            simp only [hcut, u8FromStrRadix_wide h2]
            cases cs <;> rw [decodePairs, if_pos h2]
          · cases cs with
            | nil =>
                have hcut : sliceTo [c] 2 = none := by
                  rw [sliceTo]
                  split_ifs with hle
                  · rw [show 1 + 1 - c.utf8Size = 0 + 1 by omega, sliceTo, Option.map_none]
                  · rfl
                rw [hcut, decodePairs, if_neg h2]
            | cons d cs =>
                have hdpos := d.utf8Size_pos
                rw [decodePairs, if_neg h2]
                by_cases h1 : c.utf8Size = 1 ∧ d.utf8Size = 1
                · have hcut : sliceTo (c :: d :: cs) 2 = some [c, d] := by
                    simp [sliceTo, h1.1, h1.2]
                  have hrest : decodeAt (pre ++ c :: d :: cs)
                      ((List.range' (k + 1) n).map (2 * ·)) = decodePairs cs := by
                    have happ : pre ++ c :: d :: cs = (pre ++ [c, d]) ++ cs := by simp
                    rw [happ]
                    refine ih ?_ ?_
                    · simp [hpre, h1.1, h1.2]
                      omega
                    · simp [h1.1, h1.2] at hcs
                      omega
                  rw [if_pos h1, hrest]
                  cases hb : u8FromStrRadix [c, d] <;> cases decodePairs cs <;> simp only [hcut, hb]
                · have hcut : sliceTo (c :: d :: cs) 2 = none := by
                    rw [sliceTo]
                    split_ifs with hle
                    · rw [show 1 + 1 - c.utf8Size = 0 + 1 by omega, sliceTo, if_neg (by omega),
                        Option.map_none]
                    · rfl
                  rw [if_neg h1, hcut]

/-- **`decode_hex` along the characters.** -/
theorem decodeHex_eq (s : List Char) : decodeHex s =
    if utf8Len s % 2 ≠ 0 then .err "Hex string length must be even" else decodePairs s := by
  rw [decodeHex]
  split_ifs with h
  · rfl
  · rw [List.range_eq_range']
    exact @decodeAt_eq [] s 0 _ rfl (by omega)

/-! ### The slices of the bytes -/

/-- `&bytes[lo..hi]`, `none` where it panics. -/
def sliceBytes (bytes : List UInt8) (lo hi : ℕ) : Option (List UInt8) :=
  if lo ≤ hi ∧ hi ≤ bytes.length then some ((bytes.take hi).drop lo) else none

/-- A value, or the panic of the operation that has none. -/
def checked {σ α : Type} : Option α → Comp σ α
  | some a => pure a
  | none => .panic

/-- `match tag` of `parse_bytes` with every slice checked; the bytes that are left are the state. -/
def tagArms (parseBytes : Comp (List UInt8) Expr) (tag : UInt8) (rest : List UInt8) :
    Comp (List UInt8) Expr :=
  if tag = 0x00 then
    if rest.length < 8 then .err "ABI Error: Not enough bytes for Int64"
    else do
      let buf ← checked (sliceBytes rest 0 8)
      let rest' ← checked (sliceBytes rest 8 rest.length)
      .set rest'
      -- `copy_from_slice` panics unless both sides have the same length.
      if buf.length = 8 then pure (.intLiteral (i64FromBeBytes buf)) else .panic
  else if tag = 0x01 then do
    let left ← parseBytes
    let right ← parseBytes
    pure (.pair left right)
  else if tag = 0x02 then do
    let inner ← parseBytes
    pure (.left inner)
  else if tag = 0x03 then do
    let inner ← parseBytes
    pure (.right inner)
  else .err ("ABI Error: Unknown tag byte 0x" ++
    String.ofList [upperHex (tag.toNat / 16), upperHex (tag.toNat % 16)])

/-- `parse_bytes` with every slice checked. -/
def parseSliced : ℕ → Comp (List UInt8) Expr
  | 0 => .more
  | fuel + 1 => do
      let bytes ← .get
      if bytes.isEmpty then .err "ABI Error: Unexpected end of payload"
      else do
        let tag ← checked bytes[0]?
        let rest ← checked (sliceBytes bytes 1 bytes.length)
        .set rest
        tagArms (parseSliced fuel) tag rest

/-- `deserialize_hex` with every slice checked. -/
def deserializeSliced (hexStr : List Char) : Out Expr :=
  match decodeHex hexStr with
  | .ok bytes =>
      match parseSliced (bytes.length + 1) bytes with
      | (.ok expr, remaining) =>
          if remaining.isEmpty then .ok expr
          else .err "ABI Error: Trailing bytes found after parsing payload"
      | (out, _) => out
  | .err msg => .err msg
  | .panic => .panic
  | .more => .more

theorem parseSliced_cons (fuel : ℕ) (tag : UInt8) (rest : List UInt8) :
    parseSliced (fuel + 1) (tag :: rest) = tagArms (parseSliced fuel) tag rest rest := by
  have hrest : sliceBytes (tag :: rest) 1 (tag :: rest).length = some rest := by
    simp [sliceBytes]
  rw [parseSliced, Comp.bind_of_ok (Comp.get_apply _), List.isEmpty_cons,
    if_neg Bool.false_ne_true, hrest]
  rfl

/-- An error ends the sequence. -/
theorem bind_fst_of_err {x : Comp (List UInt8) Expr} {bytes : List UInt8} {msg : String}
    (h : (x bytes).1 = .err msg) (f : Expr → Comp (List UInt8) Expr) :
    ((x >>= f) bytes).1 = .err msg := by
  rw [Comp.bind_apply]
  rcases hx : x bytes with ⟨o, s⟩
  rw [hx] at h
  obtain rfl : o = .err msg := h
  rfl

/-- The checked parser ends as `parse_bytes` does. -/
def Follows {n : ℕ} (out : Except String (Expr × { rest : List UInt8 // rest.length < n })) :
    Out Expr × List UInt8 → Prop := fun end' =>
  match out with
  | .ok (expr, rest) => end' = (.ok expr, rest.1)
  | .error msg => end'.1 = .err msg

/-- **Sequences follow part by part.** -/
theorem Follows.bind {m n : ℕ} {x : Except String (Expr × { rest : List UInt8 // rest.length < m })}
    {f : Expr × { rest : List UInt8 // rest.length < m } →
      Except String (Expr × { rest : List UInt8 // rest.length < n })}
    {y : Comp (List UInt8) Expr} {g : Expr → Comp (List UInt8) Expr} {bytes : List UInt8}
    (h : Follows x (y bytes)) (hfg : ∀ p, Follows (f p) (g p.1 p.2.1)) :
    Follows (x >>= f) ((y >>= g) bytes) := by
  cases x with
  | error msg => exact bind_fst_of_err h g
  | ok p =>
      rw [Comp.bind_of_ok (show y bytes = (.ok p.1, p.2.1) from h)]
      exact hfg p

/-- **No slice of the bytes is out of range**, and a byte of fuel for each byte is enough. -/
theorem parseSliced_follows {fuel : ℕ} {bytes : List UInt8} (h : bytes.length < fuel) :
    Follows (parseBytes bytes) (parseSliced fuel bytes) := by
  induction fuel generalizing bytes with
  | zero => omega
  | succ fuel ih =>
      cases bytes with
      | nil =>
          rw [parseBytes]
          rfl
      | cons tag rest =>
          have hlen : rest.length < fuel := by simpa using h
          have hin := ih hlen
          rw [parseSliced_cons, tagArms, parseBytes]
          by_cases h0 : tag = 0x00
          · rw [if_pos h0, if_pos h0]
            split_ifs with h8
            · rfl
            · have hbuf : sliceBytes rest 0 8 = some (rest.take 8) := by simp [sliceBytes]; omega
              have hrest : sliceBytes rest 8 rest.length = some (rest.drop 8) := by
                simp [sliceBytes]; omega
              have htake : (rest.take 8).length = 8 := by rw [List.length_take]; omega
              rw [hbuf, hrest]
              change Follows _ ((if (rest.take 8).length = 8 then _ else _ : Comp _ _) (rest.drop 8))
              rw [if_pos htake]
              rfl
          · rw [if_neg h0, if_neg h0]
            by_cases h1 : tag = 0x01
            · rw [if_pos h1, if_pos h1]
              exact hin.bind fun p => (ih (p.2.2.trans hlen)).bind fun p' => rfl
            · rw [if_neg h1, if_neg h1]
              by_cases h2 : tag = 0x02
              · rw [if_pos h2, if_pos h2]
                exact hin.bind fun p => rfl
              · rw [if_neg h2, if_neg h2]
                by_cases h3 : tag = 0x03
                · rw [if_pos h3, if_pos h3]
                  exact hin.bind fun p => rfl
                · rw [if_neg h3, if_neg h3]
                  rfl

theorem deserializeSliced_eq (s : List Char) : deserializeSliced s = deserializeHex s := by
  rw [deserializeSliced, deserializeHex]
  cases decodeHex s with
  | ok bytes =>
      have h := parseSliced_follows (Nat.lt_succ_self bytes.length)
      simp only
      rcases hs : parseSliced (bytes.length + 1) bytes with ⟨out, remaining⟩
      rw [hs] at h
      cases hp : parseBytes bytes with
      | error msg =>
          rw [hp] at h
          obtain rfl : out = .err msg := h
          rfl
      | ok p =>
          rw [hp] at h
          cases h
          rfl
  | err msg => rfl
  | panic => rfl
  | more => rfl

/-! ### Malformed text -/

/-- The text before its first character of more than one byte, and that character. -/
def asciiPrefix (s : List Char) : List Char := s.takeWhile fun c => c.utf8Size == 1

def firstWide (s : List Char) : Option Char := s.find? fun c => c.utf8Size != 1

/-- Two characters in the places of a byte are none. -/
def HasBadPair (s : List Char) : Prop :=
  ∃ k c d, s[2 * k]? = some c ∧ s[2 * k + 1]? = some d ∧ ∃ msg, u8FromStrRadix [c, d] = .error msg

/-- **A text that can be cut**: before the first wide character an error has stopped the decoding,
or that character is a piece of its own. -/
def Cuttable (s : List Char) : Prop :=
  ∀ c, firstWide s = some c →
    HasBadPair (asciiPrefix s) ∨ (asciiPrefix s).length % 2 = 0 ∧ c.utf8Size = 2

theorem hasBadPair_cons_cons (c d : Char) (cs : List Char) :
    HasBadPair (c :: d :: cs) ↔ (∃ msg, u8FromStrRadix [c, d] = .error msg) ∨ HasBadPair cs := by
  constructor
  · rintro ⟨k, a, b, ha, hb, h⟩
    cases k with
    | zero =>
        obtain rfl := Option.some.inj ha
        obtain rfl := Option.some.inj hb
        exact .inl h
    | succ k => exact .inr ⟨k, a, b, by simpa [Nat.mul_succ] using ha, by simpa [Nat.mul_succ] using hb, h⟩
  · rintro (h | ⟨k, a, b, ha, hb, h⟩)
    · exact ⟨0, c, d, rfl, rfl, h⟩
    · exact ⟨k + 1, a, b, by simpa [Nat.mul_succ] using ha, by simpa [Nat.mul_succ] using hb, h⟩

theorem not_hasBadPair_of_length {s : List Char} (h : s.length < 2) : ¬ HasBadPair s := by
  rintro ⟨k, c, d, -, hd, -⟩
  have := (List.getElem?_eq_some_iff.1 hd).1
  omega

/-- A wide character at the front has to be a piece of its own. -/
theorem cuttable_wide {c : Char} (cs : List Char) (hc : c.utf8Size ≠ 1) :
    Cuttable (c :: cs) ↔ c.utf8Size = 2 := by
  have hnil := not_hasBadPair_of_length (show ([] : List Char).length < 2 by decide)
  simp [Cuttable, firstWide, asciiPrefix, hc, hnil]

/-- A wide character behind the first of a piece is cut. -/
theorem not_cuttable_cut {c d : Char} (cs : List Char) (hc : c.utf8Size = 1) (hd : d.utf8Size ≠ 1) :
    ¬ Cuttable (c :: d :: cs) := by
  have hone := not_hasBadPair_of_length (show [c].length < 2 by simp)
  simp [Cuttable, firstWide, asciiPrefix, hc, hd, hone]

theorem cuttable_pair {c d : Char} (cs : List Char) (hc : c.utf8Size = 1) (hd : d.utf8Size = 1) :
    Cuttable (c :: d :: cs) ↔ (∃ msg, u8FromStrRadix [c, d] = .error msg) ∨ Cuttable cs := by
  have hwide : firstWide (c :: d :: cs) = firstWide cs := by simp [firstWide, hc, hd]
  have hpre : asciiPrefix (c :: d :: cs) = c :: d :: asciiPrefix cs := by simp [asciiPrefix, hc, hd]
  rw [Cuttable, hwide, hpre, Cuttable]
  simp only [hasBadPair_cons_cons, List.length_cons,
    show (asciiPrefix cs).length + 1 + 1 = (asciiPrefix cs).length + 2 from rfl, Nat.add_mod_right]
  constructor
  · intro h
    by_cases hbad : ∃ msg, u8FromStrRadix [c, d] = .error msg
    · exact .inl hbad
    · exact .inr fun e he => (h e he).imp_left (Or.resolve_left · hbad)
  · rintro (hbad | h) e he
    · exact .inl (.inl hbad)
    · exact (h e he).imp_left .inr

/-- **Decoding ends exactly if the text can be cut.** -/
theorem decodePairs_ended_iff :
    ∀ {s : List Char}, utf8Len s % 2 = 0 → ((decodePairs s).Ended ↔ Cuttable s)
  | [], _ => by simp [decodePairs, Cuttable, firstWide]
  | [c], h => by
      have hc : c.utf8Size ≠ 1 := by
        intro hc
        simp [hc] at h
      rw [cuttable_wide [] hc, decodePairs]
      split_ifs with h2 <;> simp [h2]
  | c :: d :: cs, h => by
      by_cases hc : c.utf8Size = 1
      · by_cases hd : d.utf8Size = 1
        · have hcs : utf8Len cs % 2 = 0 := by
            simp [hc, hd] at h
            omega
          have ih := decodePairs_ended_iff hcs
          rw [cuttable_pair cs hc hd, decodePairs, if_neg (by omega), if_pos ⟨hc, hd⟩, ← ih]
          cases hb : u8FromStrRadix [c, d] with
          | error msg => simp
          | ok b => cases decodePairs cs <;> simp
        · have hno := not_cuttable_cut cs hc hd
          rw [decodePairs, if_neg (by omega), if_neg (by omega)]
          simp [hno]
      · rw [cuttable_wide (d :: cs) hc, decodePairs]
        split_ifs with h2 <;> simp [h2]
        omega

/-- The byte parser adds no panic. -/
theorem deserializeHex_ended_iff (s : List Char) :
    (deserializeHex s).Ended ↔ (decodeHex s).Ended := by
  rw [deserializeHex]
  cases decodeHex s with
  | ok bytes =>
      simp only
      cases parseBytes bytes with
      | error msg => simp
      | ok p =>
          simp only
          split_ifs <;> simp
  | err msg => simp
  | panic => simp
  | more => simp

/-- **Malformed text is an error, not a crash, exactly if it can be cut** or has an odd length.  Of
the byte buffer no slice is out of range. -/
theorem deserialize_ended_iff (s : List Char) :
    (deserializeSliced s).Ended ↔ utf8Len s % 2 = 1 ∨ Cuttable s := by
  rw [deserializeSliced_eq, deserializeHex_ended_iff, decodeHex_eq]
  split_ifs with h
  · exact iff_of_true (by simp) (.inl (by omega))
  · rw [decodePairs_ended_iff (by omega), or_iff_right (by omega)]

/-- A euro sign and a digit, four bytes, halt the kernel. -/
theorem deserialize_wide_panics : ¬ ∀ s, (deserializeSliced s).Ended := by
  intro h
  have hpanic : deserializeSliced "€0".toList = .panic := rfl
  have hend := h "€0".toList
  rw [hpanic] at hend
  simp at hend

end Autarky
end AiOsExchange
