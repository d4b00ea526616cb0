/-
# The text in its bytes

`core::str::from_utf8` looks for a character whose encoding the bytes begin with.  No encoding
begins another, so it finds the one that was encoded: every text comes back from its bytes
(`fromUtf8_utf8Bytes`), and one without blanks at its ends is the source in them.
-/

import AiOsExchange.Autarky.Execute

namespace AiOsExchange
namespace Autarky

variable {c : Char} {cs : List Char}

/-- No encoding begins another. -/
theorem eq_of_utf8EncodeChar_append {c' : Char} {rest rest' : List UInt8}
    (h : String.utf8EncodeChar c ++ rest = String.utf8EncodeChar c' ++ rest') : c = c' := by
  have hdecode (d : Char) (more : List UInt8) :
      (String.utf8EncodeChar d ++ more).toByteArray.utf8DecodeChar? 0 = some d := by
    rw [List.toByteArray_append]
    exact ByteArray.utf8DecodeChar?_utf8EncodeChar_append
  have hd := hdecode c rest
  rw [h, hdecode c' rest'] at hd
  exact (Option.some.inj hd).symm

theorem utf8Bytes_append (cs cs' : List Char) : utf8Bytes (cs ++ cs') = utf8Bytes cs ++ utf8Bytes cs' :=
  List.flatMap_append

/-- The number that an encoding stands for. -/
theorem codePoint_utf8EncodeChar (c : Char) : codePoint (String.utf8EncodeChar c) = c.toNat := by
  have hval : c.val.toNat = c.toNat := rfl
  have hlt : c.toNat < 0x110000 := by
    rcases c.valid with h | ⟨_, h⟩ <;> simp only [← hval] <;> omega
  unfold String.utf8EncodeChar
  simp only [hval]
  split_ifs <;> simp [codePoint] <;> omega

/-- A character is decoded. -/
theorem decodeChar_append (c : Char) (rest : List UInt8) :
    decodeChar (String.utf8EncodeChar c ++ rest) = some (c, rest) := by
  have hlen := String.length_utf8EncodeChar c
  have hpos := c.utf8Size_pos
  have hle := c.utf8Size_le_four
  have htake : (String.utf8EncodeChar c ++ rest).take c.utf8Size = String.utf8EncodeChar c :=
    List.take_left' hlen
  -- a shorter beginning is the encoding of no character
  have hshort (k : ℕ) (hk : k < c.utf8Size) (c' : Char) :
      String.utf8EncodeChar c' ≠ (String.utf8EncodeChar c ++ rest).take k := by
    intro heq
    have hc : c' = c := by
      refine @eq_of_utf8EncodeChar_append _ _ ((String.utf8EncodeChar c ++ rest).drop k) rest ?_
      rw [heq, List.take_append_drop]
    have hlen' := congrArg List.length heq
    rw [hc, hlen, List.length_take, List.length_append, hlen] at hlen'
    omega
  have hfound : (fun k =>
      let d := Char.ofNat (codePoint ((String.utf8EncodeChar c ++ rest).take k))
      if String.utf8EncodeChar d = (String.utf8EncodeChar c ++ rest).take k then
        some (d, (String.utf8EncodeChar c ++ rest).drop k)
      else none) c.utf8Size = some (c, rest) := by
    simp only [htake, codePoint_utf8EncodeChar, Char.ofNat_toNat, if_true]
    rw [List.drop_left' hlen]
  rw [decodeChar, List.findSome?_eq_some_iff]
  refine ⟨List.range' 1 (c.utf8Size - 1), c.utf8Size, List.range' (c.utf8Size + 1) (4 - c.utf8Size), ?_,
    hfound, fun k hk => ?_⟩
  · obtain h | h | h | h : c.utf8Size = 1 ∨ c.utf8Size = 2 ∨ c.utf8Size = 3 ∨ c.utf8Size = 4 := by omega
    all_goals rw [h]; rfl
  · rw [List.mem_range'_1] at hk
    exact if_neg (hshort k (by omega) _)

/-- **Every text comes back from its bytes.** -/
theorem fromUtf8_utf8Bytes (cs : List Char) : fromUtf8 (utf8Bytes cs) = some cs := by
  have hloop (n : ℕ) (hn : (utf8Bytes cs).length ≤ n) : fromUtf8Loop n (utf8Bytes cs) = some cs := by
    induction cs generalizing n with
    | nil => cases n <;> rfl
    | cons c cs ih =>
        have hbytes : utf8Bytes (c :: cs) = String.utf8EncodeChar c ++ utf8Bytes cs := rfl
        have hpos : 0 < (String.utf8EncodeChar c).length :=
          List.length_pos_of_ne_nil String.utf8EncodeChar_ne_nil
        rw [hbytes, List.length_append] at hn
        obtain ⟨n, rfl⟩ : ∃ m, n = m + 1 := ⟨n - 1, by omega⟩
        have hne : utf8Bytes (c :: cs) ≠ [] := by
          rw [hbytes]
          exact List.append_ne_nil_of_left_ne_nil String.utf8EncodeChar_ne_nil _
        obtain ⟨b, bs, hb⟩ := List.exists_cons_of_ne_nil hne
        rw [hb, fromUtf8Loop, ← hb, hbytes, decodeChar_append]
        simp only [Option.bind_eq_bind, Option.bind_some, Option.pure_def, ih n (by omega)]
  exact hloop _ (Nat.le_refl _)

/-- The source in the bytes of a text without blanks at its ends. -/
theorem trimmed_utf8Bytes (hfirst : ∀ c ∈ cs.head?, isWhitespace c = false)
    (hlast : ∀ c ∈ cs.getLast?, isWhitespace c = false) : trimmed (utf8Bytes cs) = cs := by
  have hdrop {ds : List Char} (h : ∀ d ∈ ds.head?, isWhitespace d = false) :
      ds.dropWhile isWhitespace = ds := by
    cases ds with
    | nil => rfl
    | cons d ds => exact List.dropWhile_cons_of_neg (by rw [h d rfl]; decide)
  rw [trimmed, fromUtf8_utf8Bytes]
  simp only [trim]
  rw [hdrop hfirst, hdrop (by rwa [List.head?_reverse]), List.reverse_reverse]

end Autarky
end AiOsExchange
