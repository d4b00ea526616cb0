/-
# The binary interface

`autarky_vm/src/abi.rs`.  A payload is a value without names: integers, pairs and the two
injections.  Its bytes are a tag and what the tag asks for:

| tag | followed by |
| --- | --- |
| `0x00` | the eight bytes of an `i64`, the highest first |
| `0x01` | two payloads |
| `0x02`, `0x03` | one payload |

The text has two hexadecimal digits a byte.  It is cut by byte position, which panics inside a
character.  `parseBytes` says with its result that it has consumed something, which is why it ends.
-/

import AiOsExchange.Autarky.Parser
import AiOsExchange.Lib.Codec

namespace AiOsExchange
namespace Autarky

open Computations Codecs

/-! ### Hexadecimal text -/

/-- `char::to_digit(16)`. -/
def hexVal (c : Char) : Option ℕ :=
  if '0' ≤ c ∧ c ≤ '9' then some (c.toNat - 48)
  else if 'a' ≤ c ∧ c ≤ 'f' then some (c.toNat - 87)
  else if 'A' ≤ c ∧ c ≤ 'F' then some (c.toNat - 55)
  else none

/-- The loop of `u8::from_str_radix` over the digits. -/
def u8Digits : ℕ → List Char → Except String UInt8
  | value, [] => .ok (UInt8.ofNat value)
  | value, c :: cs =>
      match hexVal c with
      | none => .error "invalid digit found in string"
      | some d =>
          if 16 * value + d < 256 then u8Digits (16 * value + d) cs
          else .error "number too large to fit in target type"

/-- `u8::from_str_radix(src, 16)`; a plus in front is no error. -/
def u8FromStrRadix : List Char → Except String UInt8
  | [] => .error "cannot parse integer from empty string"
  | ['+'] => .error "invalid digit found in string"
  | '+' :: c :: cs => u8Digits 0 (c :: cs)
  | cs => u8Digits 0 cs

/-- The `map` and `collect` of `decode_hex`, which stop at the first error. -/
def decodeAt (s : List Char) : List ℕ → Out (List UInt8)
  | [] => .ok []
  | i :: is =>
      match (sliceFrom s i).bind (sliceTo · 2) with
      | none => .panic
      | some digits =>
          match u8FromStrRadix digits, decodeAt s is with
          | .error msg, _ => .err msg
          | .ok b, .ok bytes => .ok (b :: bytes)
          | .ok _, out => out

/-- `decode_hex`. -/
def decodeHex (s : List Char) : Out (List UInt8) :=
  if utf8Len s % 2 ≠ 0 then .err "Hex string length must be even"
  else decodeAt s ((List.range (utf8Len s / 2)).map (2 * ·))

/-! ### Payloads -/

/-- `i64::from_be_bytes`. -/
def i64FromBeBytes (bytes : List UInt8) : Int64 :=
  Int64.ofInt (bytes.foldl (fun (value : ℕ) b => 256 * value + b.toNat) 0 : ℕ)

/-- A digit of `{:02X}`. -/
def upperHex (d : ℕ) : Char := "0123456789ABCDEF".toList.getD d '0'

/-- `parse_bytes`: an expression, and what is left of the bytes. -/
def parseBytes (bytes : List UInt8) :
    Except String (Expr × { rest : List UInt8 // rest.length < bytes.length }) :=
  match bytes with
  | [] => .error "ABI Error: Unexpected end of payload"
  | tag :: rest =>
      if tag = 0x00 then
        if rest.length < 8 then .error "ABI Error: Not enough bytes for Int64"
        else .ok (.intLiteral (i64FromBeBytes (rest.take 8)), ⟨rest.drop 8,
          Nat.lt_succ_of_le (List.drop_sublist 8 rest).length_le⟩)
      else if tag = 0x01 then do
        let (left, rest1) ← parseBytes rest
        let (right, rest2) ← parseBytes rest1.1
        .ok (.pair left right,
          ⟨rest2.1, rest2.2.trans (rest1.2.trans (Nat.lt_succ_self _))⟩)
      else if tag = 0x02 then do
        let (inner, rest1) ← parseBytes rest
        .ok (.left inner, ⟨rest1.1, rest1.2.trans (Nat.lt_succ_self _)⟩)
      else if tag = 0x03 then do
        let (inner, rest1) ← parseBytes rest
        .ok (.right inner, ⟨rest1.1, rest1.2.trans (Nat.lt_succ_self _)⟩)
      else .error ("ABI Error: Unknown tag byte 0x" ++
        String.ofList [upperHex (tag.toNat / 16), upperHex (tag.toNat % 16)])
termination_by bytes.length
decreasing_by
  all_goals simp only [List.length_cons]; omega

/-- `deserialize_hex`. -/
def deserializeHex (hexStr : List Char) : Out Expr :=
  match decodeHex hexStr with
  | .ok bytes =>
      match parseBytes bytes with
      | .error msg => .err msg
      | .ok (expr, remaining) =>
          if remaining.1.isEmpty then .ok expr
          else .err "ABI Error: Trailing bytes found after parsing payload"
  | .err msg => .err msg
  | .panic => .panic
  | .more => .more

/-! ### The encoding -/

/-- The expressions that can be sent. -/
inductive Payload
  | int (n : Int64)
  | pair (l r : Payload)
  | left (inner : Payload)
  | right (inner : Payload)
  deriving DecidableEq

def Payload.toExpr : Payload → Expr
  | .int n => .intLiteral n
  | .pair l r => .pair l.toExpr r.toExpr
  | .left inner => .left inner.toExpr
  | .right inner => .right inner.toExpr

/-- The last `k` bytes of a number, the highest first. -/
def beBytes : ℕ → ℕ → List UInt8
  | 0, _ => []
  | k + 1, n => beBytes k (n / 256) ++ [UInt8.ofNat n]

def Payload.encode : Payload → List UInt8
  | .int n => 0x00 :: beBytes 8 (n.toInt % 2 ^ 64).toNat
  | .pair l r => 0x01 :: (l.encode ++ r.encode)
  | .left inner => 0x02 :: inner.encode
  | .right inner => 0x03 :: inner.encode

/-- A hexadecimal digit, of either case. -/
def hexDigit (upper : Bool) (d : ℕ) : Char :=
  (if upper then "0123456789ABCDEF" else "0123456789abcdef").toList.getD d '0'

/-- The text of some bytes; `upper` says of each digit which case it has. -/
def hexText (upper : ℕ → Bool) : List UInt8 → List Char
  | [] => []
  | b :: bytes =>
      hexDigit (upper 0) (b.toNat / 16) :: hexDigit (upper 1) (b.toNat % 16) ::
        hexText (fun i => upper (i + 2)) bytes

/-! ### Reading the bytes -/

theorem beBytes_length (k n : ℕ) : (beBytes k n).length = k := by
  induction k generalizing n with
  | zero => rfl
  | succ k ih => rw [beBytes, List.length_append, ih, List.length_singleton]

/-- The bytes stand for the number again. -/
theorem foldl_beBytes (k n : ℕ) :
    (beBytes k n).foldl (fun (value : ℕ) b => 256 * value + b.toNat) 0 = n % 256 ^ k := by
  induction k generalizing n with
  | zero => rw [beBytes, List.foldl_nil, pow_zero, Nat.mod_one]
  | succ k ih =>
      have hlast : (UInt8.ofNat n).toNat = n % 256 := UInt8.toNat_ofNat'
      rw [beBytes, List.foldl_append, ih, List.foldl_cons, List.foldl_nil, hlast, pow_succ',
        Nat.mod_mul, Nat.add_comm]

theorem i64FromBeBytes_beBytes (n : Int64) :
    i64FromBeBytes (beBytes 8 (n.toInt % 2 ^ 64).toNat) = n := by
  have hlo : 0 ≤ n.toInt % 2 ^ 64 := Int.emod_nonneg _ (by omega)
  have hhi : n.toInt % 2 ^ 64 < 2 ^ 64 := Int.emod_lt_of_pos _ (by omega)
  rw [i64FromBeBytes, foldl_beBytes, Nat.mod_eq_of_lt (by omega), Int.toNat_of_nonneg hlo]
  apply Int64.toInt_inj.1
  have hbmod : (n.toInt % (2 ^ 64 : ℕ)).bmod (2 ^ 64) = n.toInt.bmod (2 ^ 64) := Int.emod_bmod ..
  exact Int64.toInt_ofInt.trans (hbmod.trans n.toInt_bmod)

/-- `parse_bytes` as a reader. -/
def takePayload : ListReader UInt8 String Expr := fun bytes =>
  (parseBytes bytes).map fun p => (p.1, p.2.1)

def takeInt : ListReader UInt8 String Expr := fun rest =>
  if rest.length < 8 then .error "ABI Error: Not enough bytes for Int64"
  else .ok (.intLiteral (i64FromBeBytes (rest.take 8)), rest.drop 8)

def takePair : ListReader UInt8 String Expr := do
  let l ← takePayload
  (Expr.pair l ·) <$> takePayload

theorem takePayload_int (rest : List UInt8) :
    takePayload.run (0x00 :: rest) = takeInt.run rest := by
  change (parseBytes (0x00 :: rest)).map _ = takeInt rest
  rw [parseBytes, if_pos rfl, takeInt]
  split_ifs <;> rfl

theorem takePayload_pair (rest : List UInt8) :
    takePayload.run (0x01 :: rest) = takePair.run rest := by
  change (parseBytes (0x01 :: rest)).map _ = Except.bind ((parseBytes rest).map _) _
  rw [parseBytes, if_neg (by decide), if_pos rfl]
  cases h : parseBytes rest with
  | error msg => rfl
  | ok p =>
      change Except.map _ (Except.bind (parseBytes p.2.1) _) =
        Except.bind ((parseBytes p.2.1).map _) _
      cases parseBytes p.2.1 with
      | error msg => rfl
      | ok p' => rfl

theorem takePayload_left (rest : List UInt8) :
    takePayload.run (0x02 :: rest) = (Expr.left <$> takePayload).run rest := by
  change (parseBytes (0x02 :: rest)).map _ = Except.bind ((parseBytes rest).map _) _
  rw [parseBytes, if_neg (by decide), if_neg (by decide), if_pos rfl]
  cases parseBytes rest with
  | error msg => rfl
  | ok p => rfl

theorem takePayload_right (rest : List UInt8) :
    takePayload.run (0x03 :: rest) = (Expr.right <$> takePayload).run rest := by
  change (parseBytes (0x03 :: rest)).map _ = Except.bind ((parseBytes rest).map _) _
  rw [parseBytes, if_neg (by decide), if_neg (by decide), if_neg (by decide), if_pos rfl]
  cases parseBytes rest with
  | error msg => rfl
  | ok p => rfl

/-- **`parse_bytes` reads every payload.** -/
theorem reads_encode (p : Payload) : Reads takePayload p.encode p.toExpr := by
  have hnil : ∃ e, takePayload.run [] = .error e := by
    refine ⟨"ABI Error: Unexpected end of payload", ?_⟩
    change (parseBytes []).map _ = _
    rw [parseBytes]
    rfl
  induction p with
  | int n =>
      have hint : Reads takeInt (beBytes 8 (n.toInt % 2 ^ 64).toNat)
          (.intLiteral (i64FromBeBytes (beBytes 8 (n.toInt % 2 ^ 64).toNat))) :=
        @Reads.fixed _ _ _ takeInt _ 8 (fun bytes => .intLiteral (i64FromBeBytes bytes)) _
          (beBytes_length 8 _) fun _ => rfl
      rw [i64FromBeBytes_beBytes] at hint
      exact hint.tagged hnil takePayload_int
  | pair l r ihl ihr => exact (ihl.bind (ihr.map _)).tagged hnil takePayload_pair
  | left inner ih => exact (ih.map _).tagged hnil takePayload_left
  | right inner ih => exact (ih.map _).tagged hnil takePayload_right

/-! ### Reading the text -/

theorem hexVal_hexDigit (upper : Bool) {d : ℕ} (hd : d < 16) :
    hexVal (hexDigit upper d) = some d := by
  revert d upper
  decide

theorem hexDigit_ascii (upper : Bool) {d : ℕ} (hd : d < 16) :
    (hexDigit upper d).utf8Size = 1 ∧ hexDigit upper d ≠ '+' := by
  revert d upper
  decide

/-- Two digits are a byte. -/
theorem u8FromStrRadix_digits (up up' : Bool) (b : UInt8) :
    u8FromStrRadix [hexDigit up (b.toNat / 16), hexDigit up' (b.toNat % 16)] = .ok b := by
  have hb := b.toNat_lt
  have hhi := hexVal_hexDigit up (show b.toNat / 16 < 16 by omega)
  have hlo := hexVal_hexDigit up' (show b.toNat % 16 < 16 by omega)
  have hplus := (hexDigit_ascii up (show b.toNat / 16 < 16 by omega)).2
  have hdigits : u8FromStrRadix [hexDigit up (b.toNat / 16), hexDigit up' (b.toNat % 16)] =
      u8Digits 0 [hexDigit up (b.toNat / 16), hexDigit up' (b.toNat % 16)] := by
    unfold u8FromStrRadix
    split <;> simp_all
  rw [hdigits, u8Digits, hhi]
  simp only
  rw [if_pos (by omega), u8Digits, hlo]
  simp only
  rw [if_pos (by omega), u8Digits,
    show 16 * (16 * 0 + b.toNat / 16) + b.toNat % 16 = b.toNat by omega, UInt8.ofNat_toNat]

section
variable {pre : List Char} {bytes : List UInt8} {upper : ℕ → Bool}

/-- Of a text of single bytes the positions are those of its characters. -/
theorem sliceFrom_ascii (hpre : ∀ c ∈ pre, c.utf8Size = 1) (cs : List Char) :
    sliceFrom (pre ++ cs) pre.length = some cs := by
  induction pre with
  | nil => cases cs <;> rfl
  | cons c pre ih =>
      have hc := hpre c List.mem_cons_self
      rw [List.cons_append, List.length_cons, sliceFrom, if_pos (by omega), hc]
      exact ih fun c' hc' => hpre c' (List.mem_cons_of_mem _ hc')

theorem hexText_ascii : ∀ c ∈ hexText upper bytes, c.utf8Size = 1 := by
  induction bytes generalizing upper with
  | nil => nofun
  | cons b bytes ih =>
      have hb := b.toNat_lt
      rw [hexText, List.forall_mem_cons, List.forall_mem_cons]
      exact ⟨(hexDigit_ascii _ (by omega)).1, (hexDigit_ascii _ (by omega)).1, ih⟩

theorem hexText_length : (hexText upper bytes).length = 2 * bytes.length := by
  induction bytes generalizing upper with
  | nil => rfl
  | cons b bytes ih =>
      rw [hexText, List.length_cons, List.length_cons, ih, List.length_cons]
      omega

theorem utf8Len_ascii {cs : List Char} (h : ∀ c ∈ cs, c.utf8Size = 1) :
    utf8Len cs = cs.length := by
  induction cs with
  | nil => rfl
  | cons c cs ih =>
      have hc := h c List.mem_cons_self
      have hcs := ih fun c' hc' => h c' (List.mem_cons_of_mem _ hc')
      rw [utf8Len] at hcs ⊢
      rw [List.map_cons, List.sum_cons, hcs, hc, List.length_cons, Nat.add_comm]

/-- **Each step decodes a byte.** -/
theorem decodeAt_hexText {k : ℕ} (hpre : ∀ c ∈ pre, c.utf8Size = 1) (hk : pre.length = 2 * k) :
    decodeAt (pre ++ hexText upper bytes) ((List.range' k bytes.length).map (2 * ·)) =
      .ok bytes := by
  induction bytes generalizing pre k upper with
  | nil => rfl
  | cons b bytes ih =>
      have hb := b.toNat_lt
      have hhi := (hexDigit_ascii (upper 0) (show b.toNat / 16 < 16 by omega)).1
      have hlo := (hexDigit_ascii (upper 1) (show b.toNat % 16 < 16 by omega)).1
      have hslice : (sliceFrom (pre ++ hexText upper (b :: bytes)) (2 * k)).bind (sliceTo · 2) =
          some [hexDigit (upper 0) (b.toNat / 16), hexDigit (upper 1) (b.toNat % 16)] := by
        rw [← hk, sliceFrom_ascii hpre, hexText, Option.bind_some, sliceTo, hhi,
          if_pos (by omega), sliceTo, hlo, if_pos (by omega), sliceTo]
        rfl
      have hrest : pre ++ hexText upper (b :: bytes) =
          (pre ++ [hexDigit (upper 0) (b.toNat / 16), hexDigit (upper 1) (b.toNat % 16)]) ++
            hexText (fun i => upper (i + 2)) bytes := by
        rw [hexText, List.append_assoc]
        rfl
      rw [List.length_cons, List.range'_succ, List.map_cons, decodeAt, hslice, hrest]
      simp only [u8FromStrRadix_digits]
      rw [ih ?_ ?_]
      · intro c hc
        rcases List.mem_append.1 hc with hc | hc
        · exact hpre c hc
        · rcases List.mem_cons.1 hc with rfl | hc
          · exact hhi
          · rw [List.mem_singleton.1 hc]
            exact hlo
      · rw [List.length_append, hk]
        rfl

/-- **A text is decoded** to its bytes. -/
theorem decodeHex_hexText : decodeHex (hexText upper bytes) = .ok bytes := by
  have hdecode := @decodeAt_hexText [] bytes upper 0 nofun rfl
  rw [decodeHex, utf8Len_ascii hexText_ascii, hexText_length, if_neg (by omega),
    Nat.mul_div_cancel_left _ (by omega), List.range_eq_range']
  exact hdecode

/-- A result of the reader as an outcome. -/
def outOf : Except String Expr → Out Expr
  | .ok expr => .ok expr
  | .error msg => .err msg

theorem deserializeHex_hexText : deserializeHex (hexText upper bytes) =
    outOf (readAll "ABI Error: Trailing bytes found after parsing payload" takePayload bytes) := by
  rw [deserializeHex, decodeHex_hexText, readAll]
  simp only
  change _ = outOf (Except.bind ((parseBytes bytes).map _) _)
  cases parseBytes bytes with
  | error msg => rfl
  | ok p =>
      change (if _ then _ else _) = outOf (if _ then _ else _)
      split_ifs <;> rfl

theorem hexText_append (upper' : ℕ → Bool) (bytes' : List UInt8) :
    ∃ upper'', hexText upper bytes ++ hexText upper' bytes' = hexText upper'' (bytes ++ bytes') := by
  induction bytes generalizing upper with
  | nil => exact ⟨upper', rfl⟩
  | cons b bytes ih =>
      obtain ⟨upper'', h⟩ := @ih fun i => upper (i + 2)
      refine ⟨fun
        | 0 => upper 0
        | 1 => upper 1
        | i + 2 => upper'' i, ?_⟩
      rw [hexText, List.cons_append, List.cons_append, h]
      rfl

theorem hexText_take (m : ℕ) :
    (hexText upper bytes).take (2 * m) = hexText upper (bytes.take m) := by
  induction bytes generalizing upper m with
  | nil => rw [hexText, List.take_nil, List.take_nil, hexText]
  | cons b bytes ih =>
      cases m with
      | zero => rfl
      | succ m =>
          rw [hexText, show 2 * (m + 1) = 2 * m + 1 + 1 by omega, List.take_succ_cons,
            List.take_succ_cons, ih, List.take_succ_cons, hexText]

end

/-- **The interface is faithful.**  The text of a payload, in any mixture of the cases, is read as
the payload; with more bytes behind it or cut off anywhere it is an error. -/
theorem abi_round_trip (p : Payload) (upper : ℕ → Bool) :
    deserializeHex (hexText upper p.encode) = .ok p.toExpr ∧
      (∀ (upper' : ℕ → Bool) (b : UInt8) (bytes : List UInt8),
        deserializeHex (hexText upper p.encode ++ hexText upper' (b :: bytes)) =
          .err "ABI Error: Trailing bytes found after parsing payload") ∧
      ∀ n < (hexText upper p.encode).length,
        ∃ msg, deserializeHex ((hexText upper p.encode).take n) = .err msg := by
  have hread := reads_encode p
  refine ⟨?_, fun upper' b bytes => ?_, fun n hn => ?_⟩
  · rw [deserializeHex_hexText, hread.readAll_whole, outOf]
  · obtain ⟨upper'', h⟩ := @hexText_append p.encode upper upper' (b :: bytes)
    rw [h, deserializeHex_hexText, hread.readAll_longer, outOf]
  · rcases Nat.even_or_odd' n with ⟨m, rfl | rfl⟩
    · rw [hexText_length] at hn
      obtain ⟨e, he⟩ := hread.readAll_cut "ABI Error: Trailing bytes found after parsing payload"
        (show m < p.encode.length by omega)
      exact ⟨e, by rw [hexText_take, deserializeHex_hexText, he, outOf]⟩
    · refine ⟨"Hex string length must be even", ?_⟩
      have hascii : ∀ c ∈ (hexText upper p.encode).take (2 * m + 1), c.utf8Size = 1 :=
        fun c hc => hexText_ascii c (List.mem_of_mem_take hc)
      rw [deserializeHex, decodeHex, utf8Len_ascii hascii, List.length_take, if_pos (by omega)]

end Autarky
end AiOsExchange
