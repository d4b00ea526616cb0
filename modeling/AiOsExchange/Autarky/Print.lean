/-
# Printing and reading back

The canonical text of an expression, and that `Parser::parse` of `autarky_vm/src/parser.rs`
undoes it:

| expression | text |
| --- | --- |
| `Add` … `Le`, `Pair` | `add l r` … `le l r`, `pair l r` |
| `Left`, `Right` | `Left(e)`, `Right(e)` |
| `Match` | `match e { Left(x) => a, Right(y) => b }` |
| `Let`, `LetRec` | `let x = v in b`, `let rec x = v in b` |
| `Unpack` | `unpack a b = p in e` |
| `Lambda` | `\x : T -> b` |
| `App` | `(f a)` |
| `IntLiteral`, `Var` | the decimal numeral, the name |

The tokenizer ends a word where it sees what follows, so each lemma about a piece of text has a
condition on the text behind it (`endsWord`).  An expression is read to its last character and
no further (`parse_text`).
-/

import AiOsExchange.Autarky.Words

namespace AiOsExchange
namespace Autarky

open Computations

/-! ### The canonical text -/

/-- The decimal numeral of an integer. -/
def numeral (n : Int64) : Word :=
  if n.toInt < 0 then '-' :: Nat.toDigits 10 n.toInt.natAbs else Nat.toDigits 10 n.toInt.natAbs

/-- The word of an operator. -/
def BinOp.word : BinOp → Word
  | .add => "add".toList
  | .sub => "sub".toList
  | .mul => "mul".toList
  | .div => "div".toList
  | .eq => "eq".toList
  | .gt => "gt".toList
  | .lt => "lt".toList
  | .ge => "ge".toList
  | .le => "le".toList

/-- Pieces of text with blanks between them. -/
def spaced : List (List Char) → List Char
  | [] => []
  | [cs] => cs
  | cs :: ds :: rest => cs ++ ' ' :: spaced (ds :: rest)

/-- A text in parentheses, behind a word. -/
def call (w : Word) (cs : List Char) : List Char := w ++ '(' :: (cs ++ [')'])

/-- A text with a comma behind it. -/
def comma (cs : List Char) : List Char := cs ++ [',']

/-- The text of a type; function types have none. -/
def Ty.text : Ty → List Char
  | .int => "Int".toList
  | .float => "Float".toList
  | .any => "Any".toList
  | .func _ _ => []
  | .pair t₁ t₂ => call "Pair".toList (spaced [comma t₁.text, t₂.text])
  | .either t₁ t₂ => call "Either".toList (spaced [comma t₁.text, t₂.text])

theorem Ty.text_int : Ty.int.text = "Int".toList := rfl

theorem Ty.text_float : Ty.float.text = "Float".toList := rfl

theorem Ty.text_any : Ty.any.text = "Any".toList := rfl

theorem Ty.text_pair (t₁ t₂ : Ty) :
    (Ty.pair t₁ t₂).text = call "Pair".toList (spaced [comma t₁.text, t₂.text]) := rfl

theorem Ty.text_either (t₁ t₂ : Ty) :
    (Ty.either t₁ t₂).text = call "Either".toList (spaced [comma t₁.text, t₂.text]) := rfl

/-- The text of an expression; float literals have none. -/
def Expr.text : Expr → List Char
  | .intLiteral n => numeral n
  | .floatLiteral _ => []
  | .var name => name
  | .bin op l r => spaced [op.word, l.text, r.text]
  | .lambda x t b => spaced ['\\' :: x, ":".toList, t.text, "->".toList, b.text]
  | .app f a _ => call [] (spaced [f.text, a.text])
  | .pair l r => spaced ["pair".toList, l.text, r.text]
  | .unpack a b p e =>
      spaced ["unpack".toList, a, b, "=".toList, p.text, "in".toList, e.text]
  | .left e => call "Left".toList e.text
  | .right e => call "Right".toList e.text
  | .matchE e x l y r =>
      spaced ["match".toList, e.text, "\x7b".toList, call "Left".toList x, "=>".toList,
        comma l.text, call "Right".toList y, "=>".toList, r.text, "\x7d".toList]
  | .letE x v b => spaced ["let".toList, x, "=".toList, v.text, "in".toList, b.text]
  | .letRec x v b =>
      spaced ["let".toList, "rec".toList, x, "=".toList, v.text, "in".toList, b.text]

attribute [simp] spaced call comma Expr.text

/-- The tokenizer does not cut the word: it has neither blanks nor delimiters (`=` among them, and
so no `=>`), nor an arrow. -/
structure Plain (w : Word) : Prop where
  ne_nil : w ≠ []
  chars : ∀ c ∈ w, isBlank c = false ∧ isDelimiter c = false
  arrow : ¬ "->".toList <:+: w

/-- An identifier: a plain word that is no keyword and does not read as a number. -/
structure Identifier (w : Word) : Prop extends Plain w where
  keyword_eq : keyword w = .other
  not_int : parseI64 w = none
  not_float : parseF64 w = none

/-- The types that the parser knows. -/
def Ty.Printable : Ty → Prop
  | .int | .float | .any => True
  | .func _ _ => False
  | .pair t₁ t₂ | .either t₁ t₂ => t₁.Printable ∧ t₂.Printable

/-- The expressions without float literals, with types that the parser knows and identifiers for
names. -/
def Expr.Printable : Expr → Prop
  | .intLiteral _ => True
  | .floatLiteral _ => False
  | .var name => Identifier name
  | .bin _ l r | .pair l r => l.Printable ∧ r.Printable
  | .lambda x t b => Identifier x ∧ t.Printable ∧ b.Printable
  | .app f a tailPosition => tailPosition = false ∧ f.Printable ∧ a.Printable
  | .unpack a b p e => Identifier a ∧ Identifier b ∧ p.Printable ∧ e.Printable
  | .left e | .right e => e.Printable
  | .matchE e x l y r => e.Printable ∧ Identifier x ∧ l.Printable ∧ Identifier y ∧ r.Printable
  | .letE x v b => Identifier x ∧ x ≠ "rec".toList ∧ v.Printable ∧ b.Printable
  | .letRec x v b => Identifier x ∧ v.Printable ∧ b.Printable

/-! ### Numerals are read back -/

theorem digitVal_of_isDigit {c : Char} (h : c.isDigit = true) : digitVal c = some (c.toNat - 48) := by
  simp only [Char.isDigit, Bool.and_eq_true, decide_eq_true_eq] at h
  exact if_pos h

/-- The digits of a number are all taken, and have its value. -/
theorem takeDigits_of_digits {cs : List Char} (h : ∀ c ∈ cs, c.isDigit = true) (count value : ℕ) :
    takeDigits count value cs = ((count + cs.length, Nat.ofDigitChars 10 cs value), []) := by
  induction cs generalizing count value with
  | nil => simp [takeDigits]
  | cons c cs ih =>
      rw [takeDigits, digitVal_of_isDigit (h c (by simp)), Nat.ofDigitChars_cons]
      simp only
      rw [ih fun d hd => h d (by simp [hd]), List.length_cons, Nat.add_right_comm, Nat.add_assoc]
      rfl

theorem isDigit_of_mem_digits {n : ℕ} {c : Char} (h : c ∈ Nat.toDigits 10 n) : c.isDigit = true :=
  Nat.isDigit_of_mem_toDigits (by omega) (by omega) h

theorem takeDigits_toDigits (n : ℕ) :
    takeDigits 0 0 (Nat.toDigits 10 n) = (((Nat.toDigits 10 n).length, n), []) := by
  rw [takeDigits_of_digits fun _ => isDigit_of_mem_digits, Nat.ofDigitChars_ten_toDigits,
    Nat.zero_add]

theorem takeSign_of_digits {cs : List Char} (h : ∀ c ∈ cs, c.isDigit = true) :
    takeSign cs = (false, cs) := by
  cases cs with
  | nil => rfl
  | cons c cs =>
      have hc := h c (by simp)
      unfold takeSign
      split
      · next heq => rw [(List.cons.inj heq).1] at hc; cases hc
      · next heq => rw [(List.cons.inj heq).1] at hc; cases hc
      · rfl

/-- **An integer is read back from its numeral.** -/
theorem parseI64_numeral (n : Int64) : parseI64 (numeral n) = some n := by
  have hlt := n.toInt_lt
  have hle := n.le_toInt
  have hpos : (Nat.toDigits 10 n.toInt.natAbs).length ≠ 0 := Nat.ne_of_gt Nat.length_toDigits_pos
  rw [numeral, parseI64]
  split_ifs with hneg
  · have hval : -(n.toInt.natAbs : ℤ) = n.toInt := by omega
    simp only [takeSign, takeDigits_toDigits, if_true, hval]
    rw [if_pos ⟨hpos, hle, hlt⟩, Int64.ofInt_toInt]
  · have hval : (n.toInt.natAbs : ℤ) = n.toInt := by omega
    simp only [takeSign_of_digits fun _ => isDigit_of_mem_digits, takeDigits_toDigits,
      Bool.false_eq_true, if_false, hval]
    rw [if_pos ⟨hpos, hle, hlt⟩, Int64.ofInt_toInt]

/-! ### Pieces of text -/

/-- Reading from the characters of a text. -/
def textReader : Reader (List Char) where
  readWord cs := (.ok (nextWord (dropBlank cs)).1, (nextWord (dropBlank cs)).2)
  isEof cs := (.ok (dropBlank cs).isEmpty, dropBlank cs)
  closes cs := (.ok (decide ((dropBlank cs).head? = some ')')), dropBlank cs)

/-- The first word of the text `cs` is `w`, and `rest` follows it. -/
def Begins (w : Word) (cs rest : List Char) : Prop := nextWord (dropBlank cs) = (w, rest)

section
variable {w : Word} {cs rest : List Char} {c : Char}

theorem readWord_of_begins {α : Type} (h : Begins w cs rest) (f : Word → Comp (List Char) α) :
    (textReader.readWord >>= f) cs = f w rest := by
  rw [Begins] at h
  rw [Comp.bind_apply]
  simp only [textReader, h]

/-- A blank in front does not matter. -/
theorem Begins.blank (h : Begins w cs rest) : Begins w (' ' :: cs) rest := h

/-- The first word of an expression is read at once, when there is one. -/
theorem isEof_readWord_of_begins {α : Type} (h : Begins w cs rest) (hne : w ≠ [])
    (f : Word → Comp (List Char) α) :
    (textReader.isEof >>= fun eof => if eof then .err "EOF" else textReader.readWord >>= f) cs =
      f w rest := by
  rw [Begins] at h
  cases hd : dropBlank cs with
  | nil =>
      rw [hd] at h
      exact absurd (congrArg Prod.fst h).symm hne
  | cons c r =>
      have hdrop : dropBlank (c :: r) = c :: r := hd ▸ dropBlank_dropBlank cs
      have heof : textReader.isEof cs = (.ok false, c :: r) := by simp [textReader, hd]
      rw [Comp.bind_of_ok heof, if_neg Bool.false_ne_true]
      rw [hd, ← hdrop] at h
      exact readWord_of_begins h f

/-- A delimiter is a word of its own, unless it begins an arrow. -/
theorem begins_delimiter (hd : isDelimiter c = true) (hb : isBlank c = false) (hc : c ≠ '@')
    (ha : startsWithArrow (c :: cs) = false) : Begins [c] (c :: cs) cs := by
  rw [Begins, dropBlank, if_neg (by simp [hb]), if_neg hc, nextWord, if_neg (by simp [ha]), if_pos hd]

/-- A word does not end in front of a character of its own. -/
theorem startsWithArrow_plain {u : Word} (hd : isDelimiter c = false) (ha : ¬ "->".toList <:+: c :: u)
    (he : endsWord cs = true) : startsWithArrow (c :: (u ++ cs)) = false := by
  rw [Bool.eq_false_iff]
  intro h
  obtain ⟨d, r, hdr, heq⟩ := eq_of_startsWithArrow h
  obtain ⟨rfl, htail⟩ := List.cons.inj heq
  rcases hdr with rfl | rfl
  · cases u with
    | nil =>
        rw [List.nil_append] at htail
        rw [htail] at he
        cases he
    | cons d u =>
        obtain ⟨rfl, -⟩ := List.cons.inj htail
        exact ha ⟨[], u, rfl⟩
  · cases hd

theorem takeWord_plain (hchars : ∀ c ∈ w, isBlank c = false ∧ isDelimiter c = false)
    (ha : ¬ "->".toList <:+: w) (he : endsWord cs = true) : takeWord (w ++ cs) = (w, cs) := by
  induction w with
  | nil =>
      cases cs with
      | nil => rfl
      | cons c cs => rw [List.nil_append, takeWord, if_pos he]
  | cons c w ih =>
      obtain ⟨hb, hd⟩ := hchars c (by simp)
      have hends : endsWord (c :: (w ++ cs)) = false := by
        rw [endsWord, hb, hd, startsWithArrow_plain hd ha he]
        rfl
      rw [List.cons_append, takeWord, if_neg (by simp [hends]),
        ih (fun d hd => hchars d (by simp [hd])) fun h => ha (h.trans (List.suffix_cons c w).isInfix)]

/-- **A plain word is read up to where a word ends.** -/
theorem Plain.begins (h : Plain w) (he : endsWord cs = true) : Begins w (w ++ cs) cs := by
  obtain ⟨c, u, rfl⟩ := List.exists_cons_of_ne_nil h.ne_nil
  obtain ⟨hb, hd⟩ := h.chars c (by simp)
  have hc : c ≠ '@' := by
    rintro rfl
    cases hd
  have ha := startsWithArrow_plain hd h.arrow he
  rw [Begins, List.cons_append, dropBlank, if_neg (by simp [hb]), if_neg hc, nextWord,
    if_neg (by simp [ha]), if_neg (by simp [hd]), ← List.cons_append]
  exact takeWord_plain h.chars h.arrow he

end

/-- Letters and digits are neither blanks nor delimiters. -/
theorem not_blank_of_isAlphanum {c : Char} (h : c.isAlphanum = true) :
    isBlank c = false ∧ isDelimiter c = false := by
  have hall : ∀ n < 128, (Char.ofNat n).isAlphanum = true →
      isBlank (Char.ofNat n) = false ∧ isDelimiter (Char.ofNat n) = false := by decide
  have hval {u : Char} (hc : c.val ≤ u.val) (hu : u.toNat < 128) : c.toNat < 128 :=
    Nat.lt_of_le_of_lt (UInt32.le_iff_toNat_le.1 hc) hu
  have hlt : c.toNat < 128 := by
    rcases Bool.or_eq_true_iff.1 h with hletter | hdigit
    · rcases Bool.or_eq_true_iff.1 hletter with hupper | hlower
      · exact hval (u := 'Z') (of_decide_eq_true hupper).2 (by decide)
      · exact hval (u := 'z') (of_decide_eq_true (Bool.and_eq_true_iff.1 hlower).2) (by decide)
    · exact hval (u := '9') (of_decide_eq_true (Bool.and_eq_true_iff.1 hdigit).2) (by decide)
  have hc := hall c.toNat hlt
  rw [Char.ofNat_toNat] at hc
  exact hc h

/-- Words of letters, digits and minus signs are plain. -/
theorem plain_of_isAlphanum {w : Word} (hne : w ≠ []) (h : ∀ c ∈ w, c.isAlphanum = true ∨ c = '-') :
    Plain w := by
  refine ⟨hne, fun c hc => ?_, fun harrow => ?_⟩
  · rcases h c hc with ha | rfl
    · exact not_blank_of_isAlphanum ha
    · decide
  · have hgt : '>' ∈ w := harrow.subset (by decide)
    rcases h _ hgt with ha | ha
    · exact absurd ha (by decide)
    · exact absurd ha (by decide)

/-- Words of letters are plain. -/
theorem plain_of_isAlpha {w : Word} (hne : w ≠ []) (h : w.all Char.isAlpha = true) : Plain w :=
  plain_of_isAlphanum hne fun c hc => .inl (by simp [Char.isAlphanum, List.all_eq_true.1 h c hc])

/-- A word of letters in front of something that ends it. -/
theorem begins_letters {w : Word} {cs : List Char} (hne : w ≠ []) (h : w.all Char.isAlpha = true)
    (he : endsWord cs = true) : Begins w (w ++ cs) cs :=
  (plain_of_isAlpha hne h).begins he

/-! ### Types -/

/-- `parse_type` reads the type from its text, and nothing behind it. -/
def Ty.ReadBack (t : Ty) : Prop :=
  ∀ ⦃cs : List Char⦄ ⦃fuel : ℕ⦄, (t.text ++ cs).length < fuel → endsWord cs = true →
    parseTypeWith textReader fuel (t.text ++ cs) = (.ok t, cs)

section
variable {t t₁ t₂ : Ty} {cs : List Char} {α : Type} {fuel : ℕ}

theorem Ty.ReadBack.bind (h : t.ReadBack) (hf : (t.text ++ cs).length < fuel)
    (he : endsWord cs = true) (f : Ty → Comp (List Char) α) :
    (parseTypeWith textReader fuel >>= f) (t.text ++ cs) = f t cs :=
  Comp.bind_of_ok (h hf he) f

/-- A blank in front of a type does not matter. -/
theorem Ty.ReadBack.bind_blank (h : t.ReadBack) (hf : (t.text ++ cs).length < fuel)
    (he : endsWord cs = true) (f : Ty → Comp (List Char) α) :
    (parseTypeWith textReader fuel >>= f) (' ' :: (t.text ++ cs)) = f t cs := by
  cases fuel with
  | zero => cases hf
  | succ fuel => exact Comp.bind_of_ok (h hf he) f

theorem Ty.ReadBack.of_succ (h : ∀ cs fuel, (t.text ++ cs).length ≤ fuel → endsWord cs = true →
    parseTypeWith textReader (fuel + 1) (t.text ++ cs) = (.ok t, cs)) : t.ReadBack := by
  intro cs fuel hf he
  cases fuel with
  | zero => cases hf
  | succ fuel => exact h cs fuel (Nat.le_of_lt_succ hf) he

/-- The arguments of a type, in their parentheses. -/
theorem typeArgs_text (h₁ : t₁.ReadBack) (h₂ : t₂.ReadBack)
    (hf : (t₁.text ++ t₂.text ++ cs).length + 3 < fuel) (mk : Ty → Ty → Ty) :
    (do
      let _ ← textReader.readWord
      let a ← parseTypeWith textReader fuel
      let _ ← textReader.readWord
      let b ← parseTypeWith textReader fuel
      let _ ← textReader.readWord
      pure (mk a b)) ('(' :: (t₁.text ++ ',' :: ' ' :: (t₂.text ++ ')' :: cs))) =
      (.ok (mk t₁ t₂), cs) := by
  simp only [List.length_append] at hf
  rw [readWord_of_begins (begins_delimiter rfl rfl (by decide) rfl), h₁.bind (by simp; omega) rfl,
    readWord_of_begins (begins_delimiter rfl rfl (by decide) rfl),
    h₂.bind_blank (by simp; omega) rfl,
    readWord_of_begins (begins_delimiter rfl rfl (by decide) rfl)]
  rfl

theorem Ty.ReadBack.int : Ty.int.ReadBack := by
  refine .of_succ fun cs fuel hf he => ?_
  have hb := begins_letters (w := "Int".toList) (by decide) rfl he
  rw [Ty.text_int, parseTypeWith, readWord_of_begins hb, if_pos rfl]
  rfl

theorem Ty.ReadBack.float : Ty.float.ReadBack := by
  refine .of_succ fun cs fuel hf he => ?_
  have hb := begins_letters (w := "Float".toList) (by decide) rfl he
  rw [Ty.text_float, parseTypeWith, readWord_of_begins hb, if_neg (by decide), if_pos rfl]
  rfl

theorem Ty.ReadBack.any : Ty.any.ReadBack := by
  refine .of_succ fun cs fuel hf he => ?_
  have hb := begins_letters (w := "Any".toList) (by decide) rfl he
  rw [Ty.text_any, parseTypeWith, readWord_of_begins hb, if_neg (by decide), if_neg (by decide),
    if_pos rfl]
  rfl

theorem Ty.ReadBack.pair (h₁ : t₁.ReadBack) (h₂ : t₂.ReadBack) : (Ty.pair t₁ t₂).ReadBack := by
  refine .of_succ fun cs fuel hf he => ?_
  have htext : (Ty.pair t₁ t₂).text ++ cs =
      "Pair".toList ++ '(' :: (t₁.text ++ ',' :: ' ' :: (t₂.text ++ ')' :: cs)) := by
    simp [Ty.text_pair]
  rw [htext] at hf ⊢
  simp only [List.length_append, List.length_cons] at hf
  rw [parseTypeWith, readWord_of_begins (begins_letters (w := "Pair".toList) (by decide) rfl rfl),
    if_neg (by decide), if_neg (by decide), if_neg (by decide), if_pos rfl]
  exact typeArgs_text h₁ h₂ (by simp; omega) .pair

theorem Ty.ReadBack.either (h₁ : t₁.ReadBack) (h₂ : t₂.ReadBack) : (Ty.either t₁ t₂).ReadBack := by
  refine .of_succ fun cs fuel hf he => ?_
  have htext : (Ty.either t₁ t₂).text ++ cs =
      "Either".toList ++ '(' :: (t₁.text ++ ',' :: ' ' :: (t₂.text ++ ')' :: cs)) := by
    simp [Ty.text_either]
  rw [htext] at hf ⊢
  simp only [List.length_append, List.length_cons] at hf
  rw [parseTypeWith, readWord_of_begins (begins_letters (w := "Either".toList) (by decide) rfl rfl),
    if_neg (by decide), if_neg (by decide), if_neg (by decide), if_neg (by decide), if_pos rfl]
  exact typeArgs_text h₁ h₂ (by simp; omega) .either

/-- **A type is read from its text.** -/
theorem parseTypeWith_text (h : t.Printable) : t.ReadBack := by
  induction t with
  | int => exact .int
  | float => exact .float
  | any => exact .any
  | func t₁ t₂ => cases h
  | pair t₁ t₂ ih₁ ih₂ => exact .pair (ih₁ h.1) (ih₂ h.2)
  | either t₁ t₂ ih₁ ih₂ => exact .either (ih₁ h.1) (ih₂ h.2)

end

/-! ### First words -/

theorem numeral_plain (n : Int64) : Plain (numeral n) := by
  have hne := Nat.length_toDigits_pos (b := 10) (n := n.toInt.natAbs)
  have hdigit {c : Char} (hc : c ∈ Nat.toDigits 10 n.toInt.natAbs) : c.isAlphanum = true := by
    rw [Char.isAlphanum, isDigit_of_mem_digits hc, Bool.or_true]
  rw [numeral]
  split_ifs
  · refine plain_of_isAlphanum (by simp) fun c hc => ?_
    rcases List.mem_cons.1 hc with rfl | hc
    · exact .inr rfl
    · exact .inl (hdigit hc)
  · exact plain_of_isAlphanum (List.ne_nil_of_length_pos hne) fun c hc => .inl (hdigit hc)

/-- A keyword is not read as an integer. -/
theorem keyword_of_parseI64 {w : Word} {n : Int64} (h : parseI64 w = some n) :
    keyword w = .other := by
  have hnone : ∀ p ∈ keywords, parseI64 p.1 = none := by decide
  have hlookup : keywords.lookup w = none := by
    rw [List.lookup_eq_none_iff]
    intro p hp
    have hne : w ≠ p.1 := by
      rintro rfl
      rw [hnone p hp] at h
      cases h
    simpa using hne
  rw [keyword, hlookup]
  rfl

theorem keyword_word (op : BinOp) : keyword op.word = .bin op := by
  cases op <;> rfl

theorem BinOp.word_plain (op : BinOp) : Plain op.word := by
  cases op <;> exact plain_of_isAlpha (by decide) rfl

theorem literalOrVar_numeral (n : Int64) : literalOrVar (numeral n) = .intLiteral n := by
  rw [literalOrVar, parseI64_numeral]

theorem Identifier.literalOrVar_eq {w : Word} (h : Identifier w) : literalOrVar w = .var w := by
  rw [literalOrVar, h.not_int, h.not_float]

/-- A plain word does not begin with a delimiter. -/
theorem Plain.head {w : Word} (h : Plain w) :
    ∃ c r, w = c :: r ∧ isBlank c = false ∧ c ≠ '@' ∧ c ≠ ')' := by
  obtain ⟨c, r, rfl⟩ := List.exists_cons_of_ne_nil h.ne_nil
  obtain ⟨hb, hd⟩ := h.chars c (by simp)
  refine ⟨c, r, rfl, hb, ?_, ?_⟩
  · rintro rfl
    cases hd
  · rintro rfl
    cases hd

/-- **The text of an expression begins with neither a blank nor a closing parenthesis.** -/
theorem Expr.Printable.head {e : Expr} (h : e.Printable) :
    ∃ c r, e.text = c :: r ∧ isBlank c = false ∧ c ≠ '@' ∧ c ≠ ')' := by
  cases e with
  | intLiteral n => exact (numeral_plain n).head
  | floatLiteral f => cases h
  | var name => exact h.toPlain.head
  | bin op l r => cases op <;> exact ⟨_, _, rfl, rfl, by decide, by decide⟩
  | _ => exact ⟨_, _, rfl, rfl, by decide, by decide⟩

section
variable {e : Expr} {cs : List Char} {α : Type}

theorem Expr.Printable.dropBlank_eq (h : e.Printable) : dropBlank (e.text ++ cs) = e.text ++ cs := by
  obtain ⟨c, r, heq, hb, hc, -⟩ := h.head
  rw [heq, List.cons_append, dropBlank, if_neg (by simp [hb]), if_neg hc]

theorem closes_text (h : e.Printable) (f : Bool → Comp (List Char) α) :
    (textReader.closes >>= f) (' ' :: (e.text ++ cs)) = f false (e.text ++ cs) := by
  obtain ⟨c, r, heq, -, -, hc⟩ := h.head
  have hd : dropBlank (' ' :: (e.text ++ cs)) = e.text ++ cs := h.dropBlank_eq
  have hne : decide ((e.text ++ cs).head? = some ')') = false := by
    rw [heq]
    simpa using hc
  rw [Comp.bind_apply]
  simp only [textReader, hd, hne]

end

/-! ### Expressions -/

/-- The fixed tokens. -/
theorem begins_token {c : Char} {cs : List Char} (hd : isDelimiter c = true)
    (h : (isBlank c || c = '@' || c = '-' || c = '=') = false) : Begins [c] (c :: cs) cs := by
  simp only [Bool.or_eq_false_iff, decide_eq_false_iff_not] at h
  obtain ⟨⟨⟨hb, hc⟩, hm⟩, he⟩ := h
  refine begins_delimiter hd hb hc ?_
  rw [Bool.eq_false_iff]
  intro ha
  obtain ⟨d, r, hdr, heq⟩ := eq_of_startsWithArrow ha
  obtain ⟨rfl, -⟩ := List.cons.inj heq
  exact hdr.elim hm he

theorem begins_equals (cs : List Char) : Begins ['='] ('=' :: ' ' :: cs) (' ' :: cs) :=
  begins_delimiter rfl rfl (by decide) rfl

theorem begins_in {cs : List Char} : Begins "in".toList ("in".toList ++ ' ' :: cs) (' ' :: cs) :=
  begins_letters (by decide) rfl rfl

theorem begins_left {cs : List Char} : Begins "Left".toList ("Left".toList ++ '(' :: cs) ('(' :: cs) :=
  begins_letters (by decide) rfl rfl

theorem begins_right {cs : List Char} :
    Begins "Right".toList ("Right".toList ++ '(' :: cs) ('(' :: cs) :=
  begins_letters (by decide) rfl rfl

theorem begins_arrow (cs : List Char) : Begins "->".toList ('-' :: '>' :: cs) cs := rfl

theorem begins_double_arrow (cs : List Char) : Begins "=>".toList ('=' :: '>' :: cs) cs := rfl

/-- `parse` reads the expression from its text, and nothing behind it. -/
def Expr.ReadBack (e : Expr) : Prop :=
  ∀ ⦃cs : List Char⦄ ⦃fuel : ℕ⦄, (e.text ++ cs).length < fuel → endsWord cs = true →
    parseWith textReader fuel (e.text ++ cs) = (.ok e, cs)

section
variable {e l r p v b f a : Expr} {t : Ty} {w x y : Word} {cs rest : List Char} {α : Type} {fuel : ℕ}

theorem Expr.ReadBack.bind (h : e.ReadBack) (hf : (e.text ++ cs).length < fuel)
    (he : endsWord cs = true) (f : Expr → Comp (List Char) α) :
    (parseWith textReader fuel >>= f) (e.text ++ cs) = f e cs :=
  Comp.bind_of_ok (h hf he) f

/-- A blank in front of an expression does not matter. -/
theorem Expr.ReadBack.bind_blank (h : e.ReadBack) (hf : (e.text ++ cs).length < fuel)
    (he : endsWord cs = true) (f : Expr → Comp (List Char) α) :
    (parseWith textReader fuel >>= f) (' ' :: (e.text ++ cs)) = f e cs := by
  cases fuel with
  | zero => cases hf
  | succ fuel => exact Comp.bind_of_ok (h hf he) f

theorem Expr.ReadBack.of_succ (h : ∀ cs fuel, (e.text ++ cs).length ≤ fuel → endsWord cs = true →
    parseWith textReader (fuel + 1) (e.text ++ cs) = (.ok e, cs)) : e.ReadBack := by
  intro cs fuel hf he
  cases fuel with
  | zero => cases hf
  | succ fuel => exact h cs fuel (Nat.le_of_lt_succ hf) he

/-- A word that is no keyword is read as what it denotes. -/
theorem Expr.ReadBack.word (hw : Plain w) (hk : keyword w = .other) (htext : e.text = w)
    (hval : literalOrVar w = e) : e.ReadBack := by
  refine .of_succ fun cs fuel hf he => ?_
  rw [htext, parseWith, isEof_readWord_of_begins (hw.begins he) hw.ne_nil]
  simp only [hk, hval]
  rfl

theorem Expr.ReadBack.bin (op : BinOp) (hl : l.ReadBack) (hr : r.ReadBack) :
    (Expr.bin op l r).ReadBack := by
  refine .of_succ fun cs fuel hf he => ?_
  have htext : (Expr.bin op l r).text ++ cs =
      op.word ++ ' ' :: (l.text ++ ' ' :: (r.text ++ cs)) := by
    simp
  rw [htext] at hf ⊢
  simp only [List.length_append, List.length_cons] at hf
  rw [parseWith, isEof_readWord_of_begins (op.word_plain.begins rfl) op.word_plain.ne_nil]
  simp only [keyword_word]
  rw [hl.bind_blank (by simp; omega) rfl, hr.bind_blank (by simp; omega) he]
  rfl

theorem Expr.ReadBack.lambda (hx : Identifier x) (ht : t.ReadBack) (hb : b.ReadBack) :
    (Expr.lambda x t b).ReadBack := by
  refine .of_succ fun cs fuel hf he => ?_
  have htext : (Expr.lambda x t b).text ++ cs =
      '\\' :: (x ++ ' ' :: ':' :: ' ' :: (t.text ++ ' ' :: '-' :: '>' :: ' ' :: (b.text ++ cs))) := by
    simp
  rw [htext] at hf ⊢
  simp only [List.length_append, List.length_cons] at hf
  rw [parseWith, isEof_readWord_of_begins (begins_token rfl rfl) (List.cons_ne_nil _ _)]
  simp only [show keyword ['\\'] = .lambda from rfl]
  rw [readWord_of_begins (hx.begins rfl), readWord_of_begins (begins_token rfl rfl).blank,
    ht.bind_blank (by simp; omega) rfl, readWord_of_begins (begins_arrow _).blank,
    hb.bind_blank (by simp; omega) he]
  rfl

/-- The text of the argument does not close the parenthesis. -/
theorem Expr.ReadBack.app (harg : a.Printable) (hf : f.ReadBack) (ha : a.ReadBack) :
    (Expr.app f a false).ReadBack := by
  refine .of_succ fun cs fuel hfuel he => ?_
  have htext : (Expr.app f a false).text ++ cs = '(' :: (f.text ++ ' ' :: (a.text ++ ')' :: cs)) := by
    simp
  rw [htext] at hfuel ⊢
  simp only [List.length_append, List.length_cons] at hfuel
  rw [parseWith, isEof_readWord_of_begins (begins_token rfl rfl) (List.cons_ne_nil _ _)]
  simp only [show keyword ['('] = .paren from rfl]
  rw [hf.bind (by simp; omega) rfl, closes_text harg, if_neg Bool.false_ne_true,
    ha.bind (by simp; omega) rfl, readWord_of_begins (begins_token rfl rfl)]
  rfl

theorem Expr.ReadBack.pair (hl : l.ReadBack) (hr : r.ReadBack) : (Expr.pair l r).ReadBack := by
  refine .of_succ fun cs fuel hf he => ?_
  have htext : (Expr.pair l r).text ++ cs =
      "pair".toList ++ ' ' :: (l.text ++ ' ' :: (r.text ++ cs)) := by
    simp
  rw [htext] at hf ⊢
  simp only [List.length_append, List.length_cons] at hf
  rw [parseWith, isEof_readWord_of_begins
    (begins_letters (w := "pair".toList) (by decide) rfl rfl) (by decide)]
  simp only [show keyword "pair".toList = .pair from rfl]
  rw [hl.bind_blank (by simp; omega) rfl, hr.bind_blank (by simp; omega) he]
  rfl

theorem Expr.ReadBack.unpack (hx : Identifier x) (hy : Identifier y) (hp : p.ReadBack)
    (hb : b.ReadBack) : (Expr.unpack x y p b).ReadBack := by
  refine .of_succ fun cs fuel hf he => ?_
  have htext : (Expr.unpack x y p b).text ++ cs = "unpack".toList ++ ' ' :: (x ++ ' ' :: (y ++
      ' ' :: '=' :: ' ' :: (p.text ++ ' ' :: ("in".toList ++ ' ' :: (b.text ++ cs))))) := by
    simp
  rw [htext] at hf ⊢
  simp only [List.length_append, List.length_cons] at hf
  rw [parseWith, isEof_readWord_of_begins
    (begins_letters (w := "unpack".toList) (by decide) rfl rfl) (by decide)]
  simp only [show keyword "unpack".toList = .unpack from rfl]
  rw [readWord_of_begins (hx.begins rfl).blank, readWord_of_begins (hy.begins rfl).blank,
    readWord_of_begins (begins_equals _).blank, hp.bind_blank (by simp; omega) rfl,
    readWord_of_begins begins_in.blank, hb.bind_blank (by simp; omega) he]
  rfl

theorem Expr.ReadBack.left (h : e.ReadBack) : (Expr.left e).ReadBack := by
  refine .of_succ fun cs fuel hf he => ?_
  have htext : (Expr.left e).text ++ cs = "Left".toList ++ '(' :: (e.text ++ ')' :: cs) := by
    simp
  rw [htext] at hf ⊢
  simp only [List.length_append, List.length_cons] at hf
  rw [parseWith, isEof_readWord_of_begins begins_left (by decide)]
  simp only [show keyword "Left".toList = .left from rfl]
  rw [readWord_of_begins (begins_token rfl rfl), h.bind (by simp; omega) rfl,
    readWord_of_begins (begins_token rfl rfl)]
  rfl

theorem Expr.ReadBack.right (h : e.ReadBack) : (Expr.right e).ReadBack := by
  refine .of_succ fun cs fuel hf he => ?_
  have htext : (Expr.right e).text ++ cs = "Right".toList ++ '(' :: (e.text ++ ')' :: cs) := by
    simp
  rw [htext] at hf ⊢
  simp only [List.length_append, List.length_cons] at hf
  rw [parseWith, isEof_readWord_of_begins begins_right (by decide)]
  simp only [show keyword "Right".toList = .right from rfl]
  rw [readWord_of_begins (begins_token rfl rfl), h.bind (by simp; omega) rfl,
    readWord_of_begins (begins_token rfl rfl)]
  rfl

theorem Expr.ReadBack.matchE (he : e.ReadBack) (hx : Identifier x) (hl : l.ReadBack)
    (hy : Identifier y) (hr : r.ReadBack) : (Expr.matchE e x l y r).ReadBack := by
  refine .of_succ fun cs fuel hf hend => ?_
  have htext : (Expr.matchE e x l y r).text ++ cs = "match".toList ++ ' ' :: (e.text ++
      ' ' :: '\x7b' :: ' ' :: ("Left".toList ++ '(' :: (x ++ ')' :: ' ' :: '=' :: '>' :: ' ' ::
      (l.text ++ ',' :: ' ' :: ("Right".toList ++ '(' :: (y ++ ')' :: ' ' :: '=' :: '>' :: ' ' ::
      (r.text ++ ' ' :: '\x7d' :: cs))))))) := by
    simp
  rw [htext] at hf ⊢
  simp only [List.length_append, List.length_cons] at hf
  rw [parseWith, isEof_readWord_of_begins
    (begins_letters (w := "match".toList) (by decide) rfl rfl) (by decide)]
  simp only [show keyword "match".toList = .matchE from rfl]
  rw [he.bind_blank (by simp only [List.length_append, List.length_cons]; omega) rfl,
    readWord_of_begins (begins_token rfl rfl).blank, readWord_of_begins begins_left.blank,
    readWord_of_begins (begins_token rfl rfl), readWord_of_begins (hx.begins rfl),
    readWord_of_begins (begins_token rfl rfl), readWord_of_begins (begins_double_arrow _).blank,
    hl.bind_blank (by simp; omega) rfl, readWord_of_begins (begins_token rfl rfl), rToken,
    if_pos (show [','] = ",".toList from rfl), readWord_of_begins begins_right.blank,
    readWord_of_begins (begins_token rfl rfl), readWord_of_begins (hy.begins rfl),
    readWord_of_begins (begins_token rfl rfl), readWord_of_begins (begins_double_arrow _).blank,
    hr.bind_blank (by simp; omega) rfl, readWord_of_begins (begins_token rfl rfl).blank]
  rfl

theorem Expr.ReadBack.letE (hx : Identifier x) (hrec : x ≠ "rec".toList) (hv : v.ReadBack)
    (hb : b.ReadBack) : (Expr.letE x v b).ReadBack := by
  refine .of_succ fun cs fuel hf he => ?_
  have htext : (Expr.letE x v b).text ++ cs = "let".toList ++ ' ' :: (x ++ ' ' :: '=' :: ' ' ::
      (v.text ++ ' ' :: ("in".toList ++ ' ' :: (b.text ++ cs)))) := by
    simp
  rw [htext] at hf ⊢
  simp only [List.length_append, List.length_cons] at hf
  rw [parseWith, isEof_readWord_of_begins
    (begins_letters (w := "let".toList) (by decide) rfl rfl) (by decide)]
  simp only [show keyword "let".toList = .letE from rfl]
  rw [readWord_of_begins (hx.begins rfl).blank, if_neg hrec,
    readWord_of_begins (begins_equals _).blank, hv.bind_blank (by simp; omega) rfl,
    readWord_of_begins begins_in.blank, hb.bind_blank (by simp; omega) he]
  rfl

theorem Expr.ReadBack.letRec (hx : Identifier x) (hv : v.ReadBack) (hb : b.ReadBack) :
    (Expr.letRec x v b).ReadBack := by
  refine .of_succ fun cs fuel hf he => ?_
  have htext : (Expr.letRec x v b).text ++ cs = "let".toList ++ ' ' :: ("rec".toList ++
      ' ' :: (x ++ ' ' :: '=' :: ' ' :: (v.text ++ ' ' :: ("in".toList ++
      ' ' :: (b.text ++ cs))))) := by
    simp
  rw [htext] at hf ⊢
  simp only [List.length_append, List.length_cons] at hf
  rw [parseWith, isEof_readWord_of_begins
    (begins_letters (w := "let".toList) (by decide) rfl rfl) (by decide)]
  simp only [show keyword "let".toList = .letE from rfl]
  rw [readWord_of_begins (begins_letters (w := "rec".toList) (by decide) rfl rfl).blank,
    if_pos rfl, readWord_of_begins (hx.begins rfl).blank, readWord_of_begins (begins_equals _).blank,
    hv.bind_blank (by simp; omega) rfl, readWord_of_begins begins_in.blank,
    hb.bind_blank (by simp; omega) he]
  rfl

/-- **An expression is read from its text**, and nothing behind it. -/
theorem parseWith_text (h : e.Printable) : e.ReadBack := by
  induction e with
  | intLiteral n =>
      exact .word (numeral_plain n) (keyword_of_parseI64 (parseI64_numeral n)) rfl
        (literalOrVar_numeral n)
  | floatLiteral f => cases h
  | var name => exact .word h.toPlain h.keyword_eq rfl h.literalOrVar_eq
  | bin op l r ihl ihr => exact .bin op (ihl h.1) (ihr h.2)
  | lambda x t b ih =>
      obtain ⟨hx, ht, hb⟩ := h
      exact .lambda hx (parseTypeWith_text ht) (ih hb)
  | app f a tailPosition ihf iha =>
      obtain ⟨rfl, hf, ha⟩ := h
      exact .app ha (ihf hf) (iha ha)
  | pair l r ihl ihr => exact .pair (ihl h.1) (ihr h.2)
  | unpack x y p b ihp ihb =>
      obtain ⟨hx, hy, hp, hb⟩ := h
      exact .unpack hx hy (ihp hp) (ihb hb)
  | left e ih => exact .left (ih h)
  | right e ih => exact .right (ih h)
  | matchE e x l y r ihe ihl ihr =>
      obtain ⟨he, hx, hl, hy, hr⟩ := h
      exact .matchE (ihe he) hx (ihl hl) hy (ihr hr)
  | letE x v b ihv ihb =>
      obtain ⟨hx, hrec, hv, hb⟩ := h
      exact .letE hx hrec (ihv hv) (ihb hb)
  | letRec x v b ihv ihb =>
      obtain ⟨hx, hv, hb⟩ := h
      exact .letRec hx (ihv hv) (ihb hb)

end

/-- The byte parser reads characters, in a source that stays. -/
theorem byteReader_sim_text (source : List Char) :
    ReaderSim (fun p cs => p.source = source ∧ At cs p) byteReader textReader where
  readWord := by
    rintro p cs ⟨hsrc, hat⟩
    obtain ⟨p', h1, h2, h3⟩ := Parser.readWord_at hat
    rw [show byteReader.readWord p = _ from h1]
    exact ⟨rfl, h3.trans hsrc, h2⟩
  isEof := by
    rintro p cs ⟨hsrc, hat⟩
    obtain ⟨p', h1, h2, h3⟩ := Parser.isEof_at hat
    rw [show byteReader.isEof p = _ from h1]
    exact ⟨rfl, h3.trans hsrc, h2⟩
  closes := by
    rintro p cs ⟨hsrc, hat⟩
    obtain ⟨p', h1, h2, h3⟩ := Parser.closes_at hat
    rw [show byteReader.closes p = _ from h1]
    exact ⟨rfl, h3.trans hsrc, h2⟩

/-- **Parsing undoes printing.**  `parse`, anywhere in a source, reads the text of an expression
to the expression, and stands at the end of the text then, whatever follows there: a blank and
more, a delimiter, an arrow, or the end of the source. -/
theorem parse_text {e : Expr} (h : e.Printable) (pre : List Char) {tail : List Char}
    (he : endsWord tail = true) :
    parse ⟨pre ++ (e.text ++ tail), utf8Len pre⟩ =
      (.ok e, ⟨pre ++ (e.text ++ tail), utf8Len pre + utf8Len e.text⟩) := by
  have hat : At (e.text ++ tail) ⟨pre ++ (e.text ++ tail), utf8Len pre⟩ := ⟨pre, rfl, rfl⟩
  have hfuel : (e.text ++ tail).length <
      (Parser.mk (pre ++ (e.text ++ tail)) (utf8Len pre)).len + 1 := Nat.lt_succ_of_le hat.length_le
  have hsim := parseWith_sim (byteReader_sim_text (pre ++ (e.text ++ tail)))
    ((Parser.mk (pre ++ (e.text ++ tail)) (utf8Len pre)).len + 1) _ _ ⟨rfl, hat⟩
  rw [parseWith_text h hfuel he] at hsim
  rw [parse, Comp.bind_of_ok (Comp.get_apply _)]
  generalize parseWith byteReader _ _ = res at hsim
  rcases res with ⟨o, source, pos⟩
  obtain ⟨rfl, hsource, hrest⟩ := hsim
  obtain rfl : source = pre ++ (e.text ++ tail) := hsource
  have hpos := hrest.len_eq
  simp only [Parser.len, utf8Len_append] at hpos
  obtain rfl : pos = utf8Len pre + utf8Len e.text := by omega
  rfl

/-- A program with a loop. -/
def endlessLoop : Expr :=
  .letRec ['f'] (.lambda ['n'] .int (.app (.var ['f']) (.var ['n']) false))
    (.app (.var ['f']) (.intLiteral (-5)) false)

example : endlessLoop.text = "let rec f = \\n : Int -> (f n) in (f -5)".toList := by decide

theorem parse_endlessLoop :
    parse ⟨"1 ".toList ++ (endlessLoop.text ++ " ) 1".toList), utf8Len "1 ".toList⟩ =
      (.ok endlessLoop, ⟨"1 ".toList ++ (endlessLoop.text ++ " ) 1".toList),
        utf8Len "1 ".toList + utf8Len endlessLoop.text⟩) := by
  have hf : Identifier ['f'] := ⟨plain_of_isAlpha (by decide) rfl, rfl, by decide, by decide⟩
  have hn : Identifier ['n'] := ⟨plain_of_isAlpha (by decide) rfl, rfl, by decide, by decide⟩
  have h : endlessLoop.Printable := ⟨hf, ⟨hn, trivial, rfl, hf, hn⟩, rfl, hf, trivial⟩
  exact parse_text h "1 ".toList rfl

end Autarky
end AiOsExchange
