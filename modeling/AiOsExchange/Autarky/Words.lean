/-
# The words of a text

`autarky_vm/src/parser.rs`.  A parser at a byte position stands before the rest of its text
(`At`), and what it reads there depends on that rest alone.  So the text is a list of words,
split at blanks and delimiters and cut at the first `@`, and the parser a parser of that list
(`parse_sim`).  On lists it is easily total: each call consumes a word (`parseWith_meets`), so
no slice of the byte parser panics and its fuel is never short (`parse_ended`).
-/

import AiOsExchange.Autarky.Parser

namespace AiOsExchange
namespace Autarky

open Computations

/-! ### Splitting a text -/

/-- The text after leading blanks; nothing from an `@` on. -/
def dropBlank : List Char → List Char
  | [] => []
  | c :: cs => if isBlank c then dropBlank cs else if c = '@' then [] else c :: cs

/-- Whether a word ends before this text. -/
def endsWord : List Char → Bool
  | [] => true
  | c :: cs => isBlank c || isDelimiter c || startsWithArrow (c :: cs)

/-- A word that is no token of its own, and what follows it. -/
def takeWord : List Char → Word × List Char
  | [] => ([], [])
  | c :: cs => if endsWord (c :: cs) then ([], c :: cs) else (c :: (takeWord cs).1, (takeWord cs).2)

/-- The first word of a text without leading blanks, and what follows it. -/
def nextWord : List Char → Word × List Char
  | [] => ([], [])
  | c :: cs =>
      if startsWithArrow (c :: cs) then ((c :: cs).take 2, (c :: cs).drop 2)
      else if isDelimiter c then ([c], cs) else takeWord (c :: cs)

/-- The first `n` words of a text. -/
def wordsUpTo : ℕ → List Char → List Word
  | 0, _ => []
  | n + 1, cs =>
      match dropBlank cs with
      | [] => []
      | c :: cs => (nextWord (c :: cs)).1 :: wordsUpTo n (nextWord (c :: cs)).2

/-- The words of a text up to the first `@`. -/
def words (cs : List Char) : List Word := wordsUpTo cs.length cs

theorem dropBlank_length_le (cs : List Char) : (dropBlank cs).length ≤ cs.length := by
  induction cs with
  | nil => simp [dropBlank]
  | cons c cs ih =>
      rw [dropBlank]
      split_ifs
      · exact Nat.le_trans ih (Nat.le_succ _)
      · simp
      · exact Nat.le_refl _

/-- What is left of a text begins with neither a blank nor an `@`. -/
theorem of_dropBlank_eq_cons {cs r : List Char} {c : Char} (h : dropBlank cs = c :: r) :
    isBlank c = false ∧ c ≠ '@' := by
  induction cs with
  | nil => simp [dropBlank] at h
  | cons d cs ih =>
      rw [dropBlank] at h
      split_ifs at h with h1 h2
      · exact ih h
      · obtain ⟨rfl, rfl⟩ := List.cons.inj h
        exact ⟨by simpa using h1, h2⟩

theorem dropBlank_dropBlank (cs : List Char) : dropBlank (dropBlank cs) = dropBlank cs := by
  cases h : dropBlank cs with
  | nil => rfl
  | cons c r =>
      obtain ⟨h1, h2⟩ := of_dropBlank_eq_cons h
      simp [dropBlank, h1, h2]

theorem takeWord_length_le (cs : List Char) : (takeWord cs).2.length ≤ cs.length := by
  induction cs with
  | nil => simp [takeWord]
  | cons c cs ih =>
      rw [takeWord]
      split_ifs
      · exact Nat.le_refl _
      · exact Nat.le_trans ih (Nat.le_succ _)

/-- An arrow is two characters. -/
theorem eq_of_startsWithArrow {cs : List Char} (h : startsWithArrow cs = true) :
    ∃ c r, (c = '-' ∨ c = '=') ∧ cs = c :: '>' :: r := by
  rw [startsWithArrow, Bool.or_eq_true, List.isPrefixOf_iff_prefix,
    List.isPrefixOf_iff_prefix] at h
  rcases h with ⟨r, rfl⟩ | ⟨r, rfl⟩
  · exact ⟨'-', r, .inl rfl, rfl⟩
  · exact ⟨'=', r, .inr rfl, rfl⟩

/-- A word takes at least a character. -/
theorem nextWord_length_lt {c : Char} (cs : List Char) (hb : isBlank c = false) :
    (nextWord (c :: cs)).2.length < (c :: cs).length := by
  rw [nextWord]
  split_ifs with h1 h2
  · rw [List.length_drop, List.length_cons]
    omega
  · simp
  · have := takeWord_length_le cs
    have he : endsWord (c :: cs) = false := by simp [endsWord, hb, h1, h2]
    simp [takeWord, he]
    omega

theorem wordsUpTo_congr {m n : ℕ} {cs : List Char} (hm : cs.length ≤ m) (hn : cs.length ≤ n) :
    wordsUpTo m cs = wordsUpTo n cs := by
  induction m generalizing n cs with
  | zero =>
      obtain rfl : cs = [] := List.length_eq_zero_iff.1 (by omega)
      cases n <;> rfl
  | succ m ih =>
      cases n with
      | zero =>
          obtain rfl : cs = [] := List.length_eq_zero_iff.1 (by omega)
          rfl
      | succ n =>
          have hle := dropBlank_length_le cs
          rw [wordsUpTo, wordsUpTo]
          cases hd : dropBlank cs with
          | nil => rfl
          | cons c r =>
              have hlt := nextWord_length_lt r (of_dropBlank_eq_cons hd).1
              rw [hd] at hle
              exact congrArg _ (ih (by omega) (by omega))

theorem words_of_nil {cs : List Char} (h : dropBlank cs = []) : words cs = [] := by
  rw [words]
  cases cs.length with
  | zero => rfl
  | succ n => rw [wordsUpTo, h]

theorem words_of_cons {cs r : List Char} {c : Char} (h : dropBlank cs = c :: r) :
    words cs = (nextWord (c :: r)).1 :: words (nextWord (c :: r)).2 := by
  have hle := dropBlank_length_le cs
  have hlt := nextWord_length_lt r (of_dropBlank_eq_cons h).1
  rw [h] at hle
  obtain ⟨n, hn⟩ : ∃ n, cs.length = n + 1 := ⟨cs.length - 1, by simp at hle; omega⟩
  rw [words, hn, wordsUpTo, h]
  exact congrArg _ (wordsUpTo_congr (by omega) (Nat.le_refl _))

/-- Leading blanks do not matter. -/
theorem words_dropBlank (cs : List Char) : words (dropBlank cs) = words cs := by
  cases h : dropBlank cs with
  | nil => exact (words_of_nil h).symm
  | cons c r =>
      have hh := dropBlank_dropBlank cs
      rw [h] at hh
      rw [words_of_cons h, words_of_cons hh]

/-- The next word is a closing parenthesis exactly if the next character is. -/
theorem nextWord_eq_paren_iff {c : Char} (cs : List Char) (hb : isBlank c = false) :
    (nextWord (c :: cs)).1 = [')'] ↔ c = ')' := by
  rw [nextWord]
  split_ifs with h1 h2
  · obtain ⟨d, r, hd, he⟩ := eq_of_startsWithArrow h1
    obtain ⟨rfl, rfl⟩ := List.cons.inj he
    rcases hd with rfl | rfl <;> simp
  · simp
  · have he : endsWord (c :: cs) = false := by simp [endsWord, hb, h1, h2]
    have hc : c ≠ ')' := by
      rintro rfl
      exact h2 (by decide)
    simp [takeWord, he, hc]

/-! ### Standing before the rest of a text -/

/-- The parser stands where `cs` is left to read. -/
def At (cs : List Char) (p : Parser) : Prop :=
  ∃ pre, p.source = pre ++ cs ∧ p.pos = utf8Len pre

@[simp] theorem utf8Len_nil : utf8Len [] = 0 := rfl

@[simp] theorem utf8Len_cons (c : Char) (cs : List Char) :
    utf8Len (c :: cs) = c.utf8Size + utf8Len cs := by
  simp [utf8Len]

@[simp] theorem utf8Len_append (cs cs' : List Char) :
    utf8Len (cs ++ cs') = utf8Len cs + utf8Len cs' := by
  simp [utf8Len]

theorem length_le_utf8Len (cs : List Char) : cs.length ≤ utf8Len cs := by
  induction cs with
  | nil => simp
  | cons c cs ih =>
      have := Char.utf8Size_pos c
      simp only [List.length_cons, utf8Len_cons]
      omega

theorem sliceFrom_append (pre cs : List Char) : sliceFrom (pre ++ cs) (utf8Len pre) = some cs := by
  induction pre with
  | nil => cases cs <;> rfl
  | cons c pre ih =>
      obtain ⟨k, hk⟩ : ∃ k, c.utf8Size = k + 1 :=
        ⟨c.utf8Size - 1, by have := Char.utf8Size_pos c; omega⟩
      rw [utf8Len_cons, show c.utf8Size + utf8Len pre = k + utf8Len pre + 1 by omega,
        List.cons_append, sliceFrom, if_pos (by omega),
        show k + utf8Len pre + 1 - c.utf8Size = utf8Len pre by omega, ih]

namespace At

variable {cs : List Char} {c : Char} {p : Parser}

theorem new (cs : List Char) : At cs (.new cs) := ⟨[], rfl, rfl⟩

theorem slice (h : At cs p) : sliceFrom p.source p.pos = some cs := by
  obtain ⟨pre, h1, h2⟩ := h
  rw [h1, h2, sliceFrom_append]

theorem len_eq (h : At cs p) : p.len = p.pos + utf8Len cs := by
  obtain ⟨pre, h1, h2⟩ := h
  rw [Parser.len, h1, h2, utf8Len_append]

theorem length_le (h : At cs p) : cs.length ≤ p.len := by
  have := length_le_utf8Len cs
  have := h.len_eq
  omega

theorem of_nil (h : At [] p) : ¬ p.pos < p.len := by
  have := h.len_eq
  simp at this
  omega

theorem of_cons (h : At (c :: cs) p) : p.pos < p.len := by
  have := h.len_eq
  have := Char.utf8Size_pos c
  simp only [utf8Len_cons] at *
  omega

theorem advance (h : At (c :: cs) p) : At cs { p with pos := p.pos + c.utf8Size } := by
  obtain ⟨pre, h1, h2⟩ := h
  refine ⟨pre ++ [c], ?_, ?_⟩
  · simp [h1]
  · simp [h2]

theorem stop (p : Parser) : At [] { p with pos := p.len } := ⟨p.source, by simp, rfl⟩

end At

namespace Parser

variable {cs : List Char} {c : Char} {p : Parser}

theorem rest_at (h : At cs p) : rest p = (.ok cs, p) := by
  rw [rest, Comp.bind_of_ok (Comp.get_apply p), h.slice]
  rfl

theorem nextChar_at (h : At (c :: cs) p) : nextChar p = (.ok c, p) := by
  rw [nextChar, Comp.bind_of_ok (rest_at h)]
  rfl

theorem advance_apply (n : ℕ) (p : Parser) : advance n p = (.ok (), { p with pos := p.pos + n }) :=
  rfl

theorem skipLoop_at {fuel : ℕ} (h : At cs p) (hf : cs.length < fuel) :
    ∃ p', skipLoop fuel p = (.ok (), p') ∧ At (dropBlank cs) p' ∧ p'.source = p.source := by
  induction fuel generalizing cs p with
  | zero => omega
  | succ fuel ih =>
      rw [skipLoop, Comp.bind_of_ok (Comp.get_apply p)]
      cases cs with
      | nil =>
          rw [if_neg h.of_nil]
          exact ⟨p, rfl, h, rfl⟩
      | cons c cs =>
          rw [if_pos h.of_cons, Comp.bind_of_ok (nextChar_at h), dropBlank]
          split_ifs with h1 h2
          · rw [Comp.bind_of_ok (advance_apply _ p)]
            exact ih h.advance (by simp at hf; omega)
          · exact ⟨_, rfl, .stop p, rfl⟩
          · exact ⟨p, rfl, h, rfl⟩

theorem skipWhitespace_at (h : At cs p) :
    ∃ p', skipWhitespace p = (.ok (), p') ∧ At (dropBlank cs) p' ∧ p'.source = p.source := by
  rw [skipWhitespace, Comp.bind_of_ok (Comp.get_apply p)]
  exact skipLoop_at h (Nat.lt_succ_of_le h.length_le)

theorem wordLoop_at {fuel : ℕ} (h : At cs p) (hf : cs.length < fuel) (word : Word) :
    ∃ p', wordLoop fuel word p = (.ok (word ++ (takeWord cs).1), p') ∧ At (takeWord cs).2 p' ∧
      p'.source = p.source := by
  induction fuel generalizing cs p word with
  | zero => omega
  | succ fuel ih =>
      rw [wordLoop, Comp.bind_of_ok (Comp.get_apply p)]
      cases cs with
      | nil =>
          rw [if_neg h.of_nil]
          exact ⟨p, by simp [takeWord], h, rfl⟩
      | cons c cs =>
          rw [if_pos h.of_cons, Comp.bind_of_ok (nextChar_at h), Comp.bind_of_ok (rest_at h),
            takeWord]
          by_cases he : endsWord (c :: cs) = true
          · rw [if_pos he, if_pos (by simpa [endsWord] using he)]
            exact ⟨p, by simp, h, rfl⟩
          · rw [if_neg he, if_neg (by simpa [endsWord] using he),
              Comp.bind_of_ok (advance_apply _ p)]
            obtain ⟨p', h1, h2⟩ := ih h.advance (by simp at hf; omega) (word ++ [c])
            exact ⟨p', by simpa using h1, h2⟩

/-- **`read_word` reads the next word**, and the empty one at the end of the text. -/
theorem readWord_at (h : At cs p) :
    ∃ p', readWord p = (.ok (nextWord (dropBlank cs)).1, p') ∧
      At (nextWord (dropBlank cs)).2 p' ∧ p'.source = p.source := by
  obtain ⟨q, hq, hat, hsrc⟩ := skipWhitespace_at h
  rw [readWord, Comp.bind_of_ok hq, Comp.bind_of_ok (Comp.get_apply q)]
  cases hd : dropBlank cs with
  | nil =>
      rw [hd] at hat
      rw [if_pos (Nat.not_lt.1 hat.of_nil)]
      exact ⟨q, rfl, hat, hsrc⟩
  | cons c r =>
      rw [hd] at hat
      rw [if_neg (Nat.not_le.2 hat.of_cons), Comp.bind_of_ok (rest_at hat), nextWord]
      split_ifs with h1 h2
      · obtain ⟨d, t, hdt, he⟩ := eq_of_startsWithArrow h1
        rw [Comp.bind_of_ok (advance_apply _ q), hat.slice, he]
        rw [he] at hat
        have hsize : d.utf8Size = 1 := by rcases hdt with rfl | rfl <;> rfl
        have hslice : sliceTo (d :: '>' :: t) 2 = some [d, '>'] := by
          simp [sliceTo, hsize, show '>'.utf8Size = 1 from rfl]
        refine ⟨{ q with pos := q.pos + 2 }, by simp [orPanic, hslice], ?_, hsrc⟩
        have := hat.advance.advance
        rwa [hsize] at this
      · rw [Comp.bind_of_ok (nextChar_at hat), if_pos h2, Comp.bind_of_ok (advance_apply _ q)]
        exact ⟨_, rfl, hat.advance, hsrc⟩
      · rw [Comp.bind_of_ok (nextChar_at hat), if_neg h2]
        obtain ⟨p', h3, h4, h5⟩ := wordLoop_at hat (Nat.lt_succ_of_le hat.length_le) []
        exact ⟨p', h3, h4, h5.trans hsrc⟩

theorem isEof_at (h : At cs p) :
    ∃ p', isEof p = (.ok (dropBlank cs).isEmpty, p') ∧ At (dropBlank cs) p' ∧
      p'.source = p.source := by
  obtain ⟨q, hq, hat, hsrc⟩ := skipWhitespace_at h
  refine ⟨q, ?_, hat, hsrc⟩
  rw [isEof, Comp.bind_of_ok hq, Comp.bind_of_ok (Comp.get_apply q)]
  cases hd : dropBlank cs with
  | nil =>
      rw [hd] at hat
      simp [Nat.not_lt.1 hat.of_nil]
  | cons c r =>
      rw [hd] at hat
      simp [hat.of_cons]

theorem closes_at (h : At cs p) :
    ∃ p', closes p = (.ok (decide ((dropBlank cs).head? = some ')')), p') ∧
      At (dropBlank cs) p' ∧ p'.source = p.source := by
  obtain ⟨q, hq, hat, hsrc⟩ := skipWhitespace_at h
  refine ⟨q, ?_, hat, hsrc⟩
  rw [closes, Comp.bind_of_ok hq, Comp.bind_of_ok (Comp.get_apply q)]
  cases hd : dropBlank cs with
  | nil =>
      rw [hd] at hat
      rw [if_neg hat.of_nil]
      rfl
  | cons c r =>
      rw [hd] at hat
      rw [if_pos hat.of_cons, Comp.bind_of_ok (rest_at hat)]
      rfl

end Parser

/-! ### Reading a list of words -/

/-- Reading from a list of words. -/
def wordReader : Reader (List Word) where
  readWord ws := (.ok (ws.head?.getD []), ws.tail)
  isEof ws := (.ok ws.isEmpty, ws)
  closes ws := (.ok (decide (ws.head? = some ")".toList)), ws)

/-- The parser stands before these words. -/
def Reads (p : Parser) (ws : List Word) : Prop := ∃ cs, At cs p ∧ words cs = ws

/-- Two readers that do the same in related states. -/
structure ReaderSim {σ τ : Type} (Rel : σ → τ → Prop) (R : Reader σ) (R' : Reader τ) : Prop where
  readWord : Sim Rel R.readWord R'.readWord
  isEof : Sim Rel R.isEof R'.isEof
  closes : Sim Rel R.closes R'.closes

/-- **The byte parser reads words.** -/
theorem byteReader_sim : ReaderSim Reads byteReader wordReader where
  readWord := by
    rintro p _ ⟨cs, hat, rfl⟩
    obtain ⟨p', h1, h2, -⟩ := Parser.readWord_at hat
    simp only [byteReader, wordReader, h1]
    cases hd : dropBlank cs with
    | nil =>
        rw [hd] at h2
        exact ⟨by simp [words_of_nil hd, nextWord], [], h2, by simp [words_of_nil hd]; rfl⟩
    | cons c r =>
        rw [hd] at h2
        rw [words_of_cons hd]
        exact ⟨rfl, _, h2, rfl⟩
  isEof := by
    rintro p _ ⟨cs, hat, rfl⟩
    obtain ⟨p', h1, h2, -⟩ := Parser.isEof_at hat
    simp only [byteReader, wordReader, h1]
    refine ⟨?_, _, h2, words_dropBlank cs⟩
    cases hd : dropBlank cs with
    | nil => simp [words_of_nil hd]
    | cons c r => simp [words_of_cons hd]
  closes := by
    rintro p _ ⟨cs, hat, rfl⟩
    obtain ⟨p', h1, h2, -⟩ := Parser.closes_at hat
    simp only [byteReader, wordReader, h1]
    refine ⟨?_, _, h2, words_dropBlank cs⟩
    cases hd : dropBlank cs with
    | nil => simp [words_of_nil hd]
    | cons c r => simp [words_of_cons hd, nextWord_eq_paren_iff r (of_dropBlank_eq_cons hd).1]

/-- Two readers whose parts are related. -/
structure ReaderRel {σ τ : Type} (P : ∀ ⦃α : Type⦄, Comp σ α → Comp τ α → Prop) (R : Reader σ)
    (R' : Reader τ) : Prop where
  readWord : P R.readWord R'.readWord
  isEof : P R.isEof R'.isEof
  closes : P R.closes R'.closes

section
variable {σ τ : Type} {P : ∀ ⦃α : Type⦄, Comp σ α → Comp τ α → Prop} {R : Reader σ} {R' : Reader τ}

/-- **One level of `parse_type` keeps every congruence its parts keep**, the first word read and
what comes after it. -/
theorem parseTypeWith_congr (hP : Congruence P) (hR : ReaderRel P R R') {m n : ℕ}
    (ih : P (parseTypeWith R m) (parseTypeWith R' n)) :
    ∃ f g, (∀ t, P (f t) (g t)) ∧ parseTypeWith R (m + 1) = R.readWord >>= f ∧
      parseTypeWith R' (n + 1) = R'.readWord >>= g := by
  have args (mk : Ty → Ty → Ty) := hP.bind hR.readWord fun _ => hP.bind ih fun t₁ =>
    hP.bind hR.readWord fun _ => hP.bind ih fun t₂ => hP.bind hR.readWord fun _ => hP.pure (mk t₁ t₂)
  refine ⟨_, _, fun t => ?_, rfl, rfl⟩
  split_ifs
  · exact hP.pure _
  · exact hP.pure _
  · exact hP.pure _
  · exact args .pair
  · exact args .either
  · exact hP.err _

/-- **One level of `parse` keeps every congruence its parts keep**, the first word read and what
comes after it. -/
theorem parseWith_congr (hP : Congruence P) (hR : ReaderRel P R R') {m n : ℕ}
    (ht : P (parseTypeWith R m) (parseTypeWith R' n)) (ih : P (parseWith R m) (parseWith R' n)) :
    ∃ f g, (∀ word, P (f word) (g word)) ∧
      parseWith R (m + 1) = (do if ← R.isEof then .err "EOF" else R.readWord >>= f) ∧
      parseWith R' (n + 1) = (do if ← R'.isEof then .err "EOF" else R'.readWord >>= g) := by
  have hw {α : Type} {f : Word → Comp σ α} {g : Word → Comp τ α} (h : ∀ w, P (f w) (g w)) :=
    hP.bind hR.readWord h
  have hp {α : Type} {f : Expr → Comp σ α} {g : Expr → Comp τ α} (h : ∀ e, P (f e) (g e)) :=
    hP.bind ih h
  have comma (next : Word) : P (rToken R next) (rToken R' next) := by
    rw [rToken, rToken]
    split_ifs
    · exact hR.readWord
    · exact hP.pure _
  refine ⟨_, _, fun word => ?_, rfl, rfl⟩
  cases keyword word with
  | bin op => exact hp fun l => hp fun r => hP.pure _
  | pair => exact hp fun l => hp fun r => hP.pure _
  | left => exact hw fun _ => hp fun v => hw fun _ => hP.pure _
  | right => exact hw fun _ => hp fun v => hw fun _ => hP.pure _
  | matchE =>
      exact hp fun expr => hw fun _ => hw fun _ => hw fun _ => hw fun lVar => hw fun _ =>
        hw fun _ => hp fun lBody => hw fun next => hP.bind (comma next) fun _ => hw fun _ =>
        hw fun rVar => hw fun _ => hw fun _ => hp fun rBody => hw fun _ => hP.pure _
  | letE =>
      refine hw fun next => ?_
      split_ifs
      · exact hw fun var => hw fun _ => hp fun val => hw fun _ => hp fun body => hP.pure _
      · exact hw fun _ => hp fun val => hw fun _ => hp fun body => hP.pure _
  | unpack =>
      exact hw fun a => hw fun b => hw fun _ => hp fun p => hw fun _ => hp fun body => hP.pure _
  | lambda =>
      exact hw fun p => hw fun _ => hP.bind ht fun pt => hw fun _ => hp fun b => hP.pure _
  | paren =>
      refine hp fun first => hP.bind hR.closes fun closed => ?_
      split_ifs
      · exact hw fun _ => hP.pure _
      · exact hp fun second => hw fun _ => hP.pure _
  | other => exact hP.pure _

/-- **Every fuel keeps a congruence that holds without any.** -/
theorem parseTypeWith_rel (hP : Congruence P) (hR : ReaderRel P R R') {n : ℕ}
    (h0 : P (parseTypeWith R 0) (parseTypeWith R' n)) (m : ℕ) :
    P (parseTypeWith R m) (parseTypeWith R' (m + n)) := by
  induction m with
  | zero => rwa [Nat.zero_add]
  | succ m ih =>
      obtain ⟨f, g, hfg, hx, hy⟩ := parseTypeWith_congr hP hR ih
      rw [show m + 1 + n = m + n + 1 by omega, hx, hy]
      exact hP.bind hR.readWord hfg

theorem parseWith_rel (hP : Congruence P) (hR : ReaderRel P R R') {n : ℕ}
    (ht : P (parseTypeWith R 0) (parseTypeWith R' n)) (h0 : P (parseWith R 0) (parseWith R' n))
    (m : ℕ) : P (parseWith R m) (parseWith R' (m + n)) := by
  induction m with
  | zero => rwa [Nat.zero_add]
  | succ m ih =>
      obtain ⟨f, g, hfg, hx, hy⟩ := parseWith_congr hP hR (parseTypeWith_rel hP hR ht m) ih
      rw [show m + 1 + n = m + n + 1 by omega, hx, hy]
      refine hP.bind hR.isEof fun eof => ?_
      split_ifs
      · exact hP.err _
      · exact hP.bind hR.readWord hfg

end

section
variable {σ τ : Type} {Rel : σ → τ → Prop} {R : Reader σ} {R' : Reader τ}

theorem ReaderSim.rel (h : ReaderSim Rel R R') : ReaderRel (fun _ x y => Sim Rel x y) R R' :=
  ⟨h.readWord, h.isEof, h.closes⟩

/-- **The parser does the same on readers that do.** -/
theorem parseWith_sim (h : ReaderSim Rel R R') (fuel : ℕ) :
    Sim Rel (parseWith R fuel) (parseWith R' fuel) :=
  parseWith_rel (Sim.congruence Rel) h.rel (n := 0) .more .more fuel

/-- **More fuel only completes.** -/
theorem parseWith_le (fuel more : ℕ) : Le (parseWith R fuel) (parseWith R (fuel + more)) :=
  parseWith_rel Le.congruence ⟨.refl _, .refl _, .refl _⟩ (.more _) (.more _) fuel

end

/-! ### The parser is total -/

/-- At most `n` words are left. -/
def WordsLeft (n : ℕ) (ws : List Word) : Prop := ws.length ≤ n

/-- A computation that ends, and puts no words back. -/
abbrev Keeps {α : Type} (n : ℕ) (x : Comp (List Word) α) : Prop :=
  Meets (WordsLeft n) x fun _ => WordsLeft n

theorem pure_keeps {α : Type} (n : ℕ) (a : α) : Keeps n (pure a) := .pure fun _ h => h

theorem readWord_keeps (n : ℕ) : Keeps n wordReader.readWord := fun _ h =>
  .inl ⟨_, _, rfl, Nat.le_trans (by simp) h⟩

theorem closes_keeps (n : ℕ) : Keeps n wordReader.closes := fun _ h => .inl ⟨_, _, rfl, h⟩

theorem rToken_keeps (n : ℕ) (next : Word) : Keeps n (rToken wordReader next) :=
  .ite (fun _ => readWord_keeps n) fun _ => pure_keeps n next

/-- A first word is used up. -/
theorem readWord_left (n : ℕ) :
    Meets (WordsLeft (n + 1)) wordReader.readWord fun _ => WordsLeft n := by
  intro ws h
  refine .inl ⟨_, _, rfl, ?_⟩
  simp only [WordsLeft, List.length_tail] at *
  omega

theorem Keeps.of_lt {α : Type} {n : ℕ} {x : Comp (List Word) α}
    (h : Meets (WordsLeft n) x fun _ ws => ws.length < n) : Keeps n x :=
  h.mono (fun _ hs => hs) fun _ _ hlt => Nat.le_of_lt hlt

/-- **`parse_type` is total:** fuel for the words that are left is enough. -/
theorem parseTypeWith_meets {fuel n : ℕ} (h : n < fuel) :
    Meets (WordsLeft n) (parseTypeWith wordReader fuel) fun _ ws => ws.length < n := by
  induction fuel generalizing n with
  | zero => omega
  | succ fuel ih =>
      cases n with
      | zero =>
          intro ws hws
          obtain rfl : ws = [] := List.length_eq_zero_iff.1 (Nat.le_zero.1 hws)
          exact .inr ⟨_, _, rfl⟩
      | succ n =>
          have hty : Keeps n (parseTypeWith wordReader fuel) := .of_lt (ih (by omega))
          have hw := readWord_keeps n
          have args (mk : Ty → Ty → Ty) := hw.bind fun _ => hty.bind fun t₁ =>
            hw.bind fun _ => hty.bind fun t₂ => hw.bind fun _ => pure_keeps n (mk t₁ t₂)
          refine Meets.mono (Q := fun _ => WordsLeft n) ?_ (fun _ hs => hs) fun _ _ =>
            Nat.lt_succ_of_le
          refine (readWord_left n).bind fun t => ?_
          exact .ite (fun _ => pure_keeps n _) fun _ => .ite (fun _ => pure_keeps n _) fun _ =>
            .ite (fun _ => pure_keeps n _) fun _ => .ite (fun _ => args .pair) fun _ =>
            .ite (fun _ => args .either) fun _ => .err _

/-- **`parse` is total:** fuel for the words that are left is enough, and an expression takes
at least a word. -/
theorem parseWith_meets {fuel n : ℕ} (h : n < fuel) :
    Meets (WordsLeft n) (parseWith wordReader fuel) fun _ ws => ws.length < n := by
  induction fuel generalizing n with
  | zero => omega
  | succ fuel ih =>
      cases n with
      | zero =>
          intro ws hws
          obtain rfl : ws = [] := List.length_eq_zero_iff.1 (Nat.le_zero.1 hws)
          exact .inr ⟨_, _, rfl⟩
      | succ n =>
          have hp : Keeps n (parseWith wordReader fuel) := .of_lt (ih (by omega))
          have ht : Keeps n (parseTypeWith wordReader fuel) := .of_lt (parseTypeWith_meets (by omega))
          have hw := readWord_keeps n
          refine Meets.mono (Q := fun _ => WordsLeft n) ?_ (fun _ hs => hs) fun _ _ =>
            Nat.lt_succ_of_le
          refine Meets.bind (Q := fun _ => WordsLeft (n + 1)) (fun ws hs => .inl ⟨_, _, rfl, hs⟩)
            fun eof => .ite (fun _ => .err _) fun _ => ?_
          refine (readWord_left n).bind fun word => ?_
          cases keyword word with
          | bin op => exact hp.bind fun l => hp.bind fun r => pure_keeps n _
          | pair => exact hp.bind fun l => hp.bind fun r => pure_keeps n _
          | left => exact hw.bind fun _ => hp.bind fun v => hw.bind fun _ => pure_keeps n _
          | right => exact hw.bind fun _ => hp.bind fun v => hw.bind fun _ => pure_keeps n _
          | matchE =>
              exact hp.bind fun expr => hw.bind fun _ => hw.bind fun _ => hw.bind fun _ =>
                hw.bind fun lVar => hw.bind fun _ => hw.bind fun _ => hp.bind fun lBody =>
                hw.bind fun next => (rToken_keeps n next).bind fun _ => hw.bind fun _ =>
                hw.bind fun rVar => hw.bind fun _ => hw.bind fun _ => hp.bind fun rBody =>
                hw.bind fun _ => pure_keeps n _
          | letE =>
              refine hw.bind fun next => .ite (fun _ => ?_) fun _ => ?_
              · exact hw.bind fun var => hw.bind fun _ => hp.bind fun val => hw.bind fun _ =>
                  hp.bind fun body => pure_keeps n _
              · exact hw.bind fun _ => hp.bind fun val => hw.bind fun _ => hp.bind fun body =>
                  pure_keeps n _
          | unpack =>
              exact hw.bind fun a => hw.bind fun b => hw.bind fun _ => hp.bind fun p =>
                hw.bind fun _ => hp.bind fun body => pure_keeps n _
          | lambda =>
              exact hw.bind fun p => hw.bind fun _ => ht.bind fun pt => hw.bind fun _ =>
                hp.bind fun b => pure_keeps n _
          | paren =>
              refine hp.bind fun first => (closes_keeps n).bind fun closed =>
                .ite (fun _ => ?_) fun _ => ?_
              · exact hw.bind fun _ => pure_keeps n _
              · exact hp.bind fun second => hw.bind fun _ => pure_keeps n _
          | other => exact pure_keeps n _

/-! ### The parser on a text -/

/-- The parser on the words of a text, with the fuel `parse` takes. -/
def parseWords (source : List Char) : Out Expr × List Word :=
  parseWith wordReader (utf8Len source + 1) (words source)

theorem words_length_le (cs : List Char) : (words cs).length ≤ cs.length := by
  have h (n : ℕ) (cs : List Char) : (wordsUpTo n cs).length ≤ n := by
    induction n generalizing cs with
    | zero => simp [wordsUpTo]
    | succ n ih =>
        rw [wordsUpTo]
        cases dropBlank cs with
        | nil => simp
        | cons c r => simpa using ih _
  exact h _ _

/-- **Parsing a text is parsing its words.** -/
theorem parse_sim (source : List Char) :
    (parse (.new source)).1 = (parseWords source).1 ∧
      Reads (parse (.new source)).2 (parseWords source).2 :=
  parseWith_sim byteReader_sim _ _ _ ⟨source, .new source, rfl⟩

/-- **The parser never panics and never wants for fuel.** -/
theorem parse_ended (source : List Char) : (parse (.new source)).1.Ended := by
  have hlen : (words source).length ≤ utf8Len source :=
    Nat.le_trans (words_length_le source) (length_le_utf8Len source)
  rw [(parse_sim source).1]
  exact (parseWith_meets (Nat.lt_succ_self (utf8Len source))).ended hlen

/-- **A text is a program exactly if its words are**, all of them. -/
theorem accepts_iff (source : List Char) (e : Expr) :
    accepts source e ↔ parseWords source = (.ok e, []) := by
  obtain ⟨h1, h2⟩ := parse_sim source
  have heof := byteReader_sim.isEof _ _ h2
  constructor
  · rintro ⟨p, p', hp, hp'⟩
    rw [hp] at h1 heof
    rw [show Parser.isEof p = byteReader.isEof p from rfl] at hp'
    rw [hp'] at heof
    exact Prod.ext h1.symm (by simpa [wordReader] using heof.1)
  · intro h
    rw [h] at h1 heof
    refine ⟨(parse (.new source)).2, _, Prod.ext h1 rfl, Prod.ext heof.1 rfl⟩

end Autarky
end AiOsExchange
