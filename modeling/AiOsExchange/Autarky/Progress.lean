/-
# The parser goes forward

`autarky_vm/src/parser.rs`.  The position of a parser is the end of a prefix of its source
(`IsBoundary`), and what it calls moves it to the end of a longer one.  Calls of `parse` and
`parse_type` that do not start at the end of the source read a word, and a word is a character at
least (`Advances`).  So the recursion ends: a level of it for each byte left is enough.

To speak of the positions inside a run, the reader notes where it stands after every look at the
text (`tracedReader`); the notes change nothing (`traced_sim`).
-/

import AiOsExchange.Autarky.Words

namespace AiOsExchange
namespace Autarky

open Computations

/-- The position is within the source and between two of its characters. -/
def IsBoundary (source : List Char) (n : ℕ) : Prop := ∃ pre cs, source = pre ++ cs ∧ n = utf8Len pre

/-- A call moved the parser forward: by a character at least, unless it was at the end. -/
structure Advances (p p' : Parser) : Prop where
  source : p'.source = p.source
  boundary : IsBoundary p'.source p'.pos
  le_len : p'.pos ≤ p'.len
  le : p.pos ≤ p'.pos
  lt : p.pos < p.len → p.pos < p'.pos

/-- A computation that notes where it leaves the parser. -/
def traced {α : Type} (x : Comp Parser α) : Comp (Parser × List ℕ) α := fun s =>
  ((x s.1).1, (x s.1).2, s.2 ++ [(x s.1).2.pos])

/-- Reading by byte position, with the positions noted. -/
def tracedReader : Reader (Parser × List ℕ) :=
  ⟨traced Parser.readWord, traced Parser.isEof, traced Parser.closes⟩

/-- `Parser::parse` with the positions noted. -/
def parseTraced (source : List Char) : Out Expr × Parser × List ℕ :=
  parseWith tracedReader (utf8Len source + 1) (.new source, [])

/-! ### Standing further behind -/

/-- The parser stands at position `n` of the source or behind it. -/
def Behind (source : List Char) (n : ℕ) (p : Parser) : Prop :=
  p.source = source ∧ (∃ cs, At cs p) ∧ n ≤ p.pos

/-- From wherever it starts in the source, the computation does not panic and does not go back. -/
def Forward (source : List Char) {α : Type} (x : Comp Parser α) : Prop :=
  ∀ n, Safe (Behind source n) x

theorem Forward.congruence (source : List Char) :
    Congruence fun _ (x _y : Comp Parser _) => Forward source x where
  pure a _ := .pure a
  err msg _ := .err msg
  bind h hf n := (h n).bind fun a => hf a n

section
variable {cs cs' : List Char} {p p' : Parser}

theorem At.isBoundary (h : At cs p) : IsBoundary p.source p.pos := by
  obtain ⟨pre, hsrc, hpos⟩ := h
  exact ⟨pre, cs, hsrc, hpos⟩

/-- Where less is left the position is further on. -/
theorem At.pos_add_le (h : At cs p) (h' : At cs' p') (hsrc : p'.source = p.source)
    (hlen : cs'.length ≤ cs.length) : p.pos + (cs.length - cs'.length) ≤ p'.pos := by
  obtain ⟨pre, hs, hpos⟩ := h
  obtain ⟨pre', hs', hpos'⟩ := h'
  rw [hs, hs'] at hsrc
  have hle : pre.length ≤ pre'.length := by
    have := congrArg List.length hsrc
    simp only [List.length_append] at this
    omega
  obtain ⟨mid, rfl⟩ := List.prefix_of_prefix_length_le (List.prefix_append pre cs)
    (hsrc ▸ List.prefix_append pre' cs') hle
  have hmid := length_le_utf8Len mid
  have hcount := congrArg List.length hsrc
  simp only [List.length_append, utf8Len_append] at hcount hpos'
  omega

theorem At.behind (h : At cs p) (h' : At cs' p') (hsrc : p'.source = p.source)
    (hlen : cs'.length ≤ cs.length) {source : List Char} {n : ℕ} (hp : Behind source n p) :
    Behind source n p' := by
  have := h.pos_add_le h' hsrc hlen
  have := hp.2.2
  exact ⟨hsrc.trans hp.1, ⟨cs', h'⟩, by omega⟩

theorem nextWord_dropBlank_length_le (cs : List Char) :
    (nextWord (dropBlank cs)).2.length ≤ cs.length := by
  have hle := dropBlank_length_le cs
  cases hd : dropBlank cs with
  | nil => simp [nextWord]
  | cons c r =>
      have := nextWord_length_lt r (of_dropBlank_eq_cons hd).1
      rw [hd] at hle
      omega

/-- **What the parser calls takes it forward.** -/
theorem byteReader_forward (source : List Char) :
    ReaderRel (fun _ (x _y : Comp Parser _) => Forward source x) byteReader byteReader where
  readWord := by
    intro n p hp
    obtain ⟨cs, hat⟩ := hp.2.1
    obtain ⟨p', h1, h2, h3⟩ := Parser.readWord_at hat
    simp only [byteReader, h1]
    exact ⟨by simp, hat.behind h2 h3 (nextWord_dropBlank_length_le cs) hp⟩
  isEof := by
    intro n p hp
    obtain ⟨cs, hat⟩ := hp.2.1
    obtain ⟨p', h1, h2, h3⟩ := Parser.isEof_at hat
    simp only [byteReader, h1]
    exact ⟨by simp, hat.behind h2 h3 (dropBlank_length_le cs) hp⟩
  closes := by
    intro n p hp
    obtain ⟨cs, hat⟩ := hp.2.1
    obtain ⟨p', h1, h2, h3⟩ := Parser.closes_at hat
    simp only [byteReader, h1]
    exact ⟨by simp, hat.behind h2 h3 (dropBlank_length_le cs) hp⟩

/-! ### One call -/

/-- A parser behind another one in the same source. -/
theorem advances_of_behind (h : Behind p.source p.pos p')
    (hlt : p.pos < p.len → p.pos < p'.pos) : Advances p p' := by
  obtain ⟨hsrc, ⟨cs, hat⟩, hle⟩ := h
  have := hat.len_eq
  exact ⟨hsrc, hat.isBoundary, by omega, hle, hlt⟩

/-- The first word takes the parser forward, unless it is at the end. -/
theorem readWord_behind (h : At cs p) (hlt : p.pos < p.len) :
    ∃ w p', Parser.readWord p = (.ok w, p') ∧ Behind p.source (p.pos + 1) p' := by
  obtain ⟨p', h1, h2, h3⟩ := Parser.readWord_at h
  have hle := dropBlank_length_le cs
  have hlen := h.len_eq
  have hlen' := h2.len_eq
  have hsame : p'.len = p.len := congrArg utf8Len h3
  refine ⟨_, p', h1, h3, ⟨_, h2⟩, ?_⟩
  cases hd : dropBlank cs with
  | nil =>
      rw [hd] at hlen'
      simp only [nextWord, utf8Len_nil] at hlen'
      omega
  | cons c r =>
      have hnext := nextWord_length_lt r (of_dropBlank_eq_cons hd).1
      rw [hd] at hle h2
      have := h.pos_add_le h2 h3 (by omega)
      omega

/-- A computation that begins with a word takes the parser forward. -/
theorem advances_of_readWord {α : Type} {f : Word → Comp Parser α} (h : At cs p)
    (hf : ∀ w, Forward p.source (f w)) : Advances p ((Parser.readWord >>= f) p).2 := by
  have hstart : Behind p.source p.pos p := ⟨rfl, ⟨cs, h⟩, le_rfl⟩
  refine advances_of_behind ?_ fun hlt => ?_
  · exact (((byteReader_forward p.source).readWord p.pos).bind (fun w => hf w _) p hstart).2
  · obtain ⟨w, p', hw, hb⟩ := readWord_behind h hlt
    rw [Comp.bind_of_ok hw]
    exact (hf w _ p' hb).2.2.2

theorem parseTypeWith_forward (source : List Char) (fuel : ℕ) :
    Forward source (parseTypeWith byteReader fuel) :=
  parseTypeWith_rel (Forward.congruence source) (byteReader_forward source) (n := 0)
    (fun _ => .more) fuel

theorem parseWith_forward (source : List Char) (fuel : ℕ) :
    Forward source (parseWith byteReader fuel) :=
  parseWith_rel (Forward.congruence source) (byteReader_forward source) (n := 0)
    (fun _ => .more) (fun _ => .more) fuel

/-- **`parse_type` takes the parser forward.** -/
theorem parseTypeWith_advances (fuel : ℕ) (h : At cs p) :
    Advances p (parseTypeWith byteReader (fuel + 1) p).2 := by
  obtain ⟨f, g, hf, hx, -⟩ := parseTypeWith_congr (Forward.congruence p.source)
    (byteReader_forward p.source) (n := fuel) (parseTypeWith_forward p.source fuel)
  rw [hx]
  exact advances_of_readWord h hf

/-- **`parse` takes the parser forward.** -/
theorem parseWith_advances (fuel : ℕ) (h : At cs p) :
    Advances p (parseWith byteReader (fuel + 1) p).2 := by
  obtain ⟨f, g, hf, hx, -⟩ := parseWith_congr (Forward.congruence p.source)
    (byteReader_forward p.source) (n := fuel) (parseTypeWith_forward p.source fuel)
    (parseWith_forward p.source fuel)
  obtain ⟨p', hp', hat, hsrc⟩ := Parser.isEof_at h
  have hlen := h.len_eq
  have hlen' := hat.len_eq
  have hsame : p'.len = p.len := congrArg utf8Len hsrc
  have hle := h.pos_add_le hat hsrc (dropBlank_length_le cs)
  have hbehind : Behind p.source p.pos p' := ⟨hsrc, ⟨_, hat⟩, by omega⟩
  rw [hx, Comp.bind_of_ok (show byteReader.isEof p = _ from hp')]
  cases hd : dropBlank cs with
  | nil =>
      rw [hd] at hlen'
      simp only [utf8Len_nil] at hlen'
      exact advances_of_behind hbehind fun hlt => by
        show p.pos < p'.pos
        omega
  | cons c r =>
      have hadv : Advances p' ((byteReader.readWord >>= f) p').2 :=
        advances_of_readWord hat fun w => hsrc ▸ hf w
      have hpos := c.utf8Size_pos
      rw [hd, utf8Len_cons] at hlen'
      have hlt := hadv.lt (by omega)
      rw [List.isEmpty_cons, if_neg Bool.false_ne_true]
      exact ⟨hadv.source.trans hsrc, hadv.boundary, hadv.le_len, by omega, fun _ => by omega⟩

/-! ### The whole run -/

theorem traced_sim {α : Type} (x : Comp Parser α) :
    Sim (fun s p => s.1 = p) (traced x) x := by
  rintro s _ rfl
  exact ⟨rfl, rfl⟩

theorem tracedReader_sim : ReaderSim (fun s p => s.1 = p) tracedReader byteReader :=
  ⟨traced_sim _, traced_sim _, traced_sim _⟩

/-- The positions noted are those of a walk through the source, up to where the parser stands. -/
def Walked (source : List Char) (s : Parser × List ℕ) : Prop :=
  Behind source 0 s.1 ∧ (∀ n ∈ s.2, IsBoundary source n ∧ n ≤ s.1.pos) ∧ s.2.Pairwise (· ≤ ·)

theorem Forward.walked {source : List Char} {α : Type} {x : Comp Parser α} (h : Forward source x) :
    Safe (Walked source) (traced x) := by
  rintro ⟨p, l⟩ ⟨hp, hmem, hsorted⟩
  obtain ⟨hsafe, hsrc, ⟨cs, hat⟩, hle⟩ := h p.pos p ⟨hp.1, hp.2.1, le_rfl⟩
  refine ⟨hsafe, ⟨hsrc, ⟨cs, hat⟩, Nat.zero_le _⟩, ?_, ?_⟩
  · intro n hn
    rcases List.mem_append.1 hn with hn | hn
    · exact ⟨(hmem n hn).1, (hmem n hn).2.trans hle⟩
    · rw [List.mem_singleton.1 hn]
      exact ⟨hsrc ▸ hat.isBoundary, le_rfl⟩
  · refine List.pairwise_append.2 ⟨hsorted, List.pairwise_singleton _ _, fun a ha b hb => ?_⟩
    rw [List.mem_singleton.1 hb]
    exact (hmem a ha).2.trans hle

theorem tracedReader_walked (source : List Char) :
    ReaderRel (fun _ (x _y : Comp (Parser × List ℕ) _) => Safe (Walked source) x) tracedReader
      tracedReader :=
  ⟨(byteReader_forward source).readWord.walked, (byteReader_forward source).isEof.walked,
    (byteReader_forward source).closes.walked⟩

/-- A level of the recursion for each byte left is enough. -/
theorem parseWith_ended {fuel : ℕ} (h : At cs p) (hfuel : p.len - p.pos < fuel) :
    (parseWith byteReader fuel p).1.Ended := by
  have hlen := h.len_eq
  have hcs := length_le_utf8Len cs
  have hws := words_length_le cs
  rw [(parseWith_sim byteReader_sim fuel p (words cs) ⟨cs, h, rfl⟩).1]
  exact (parseWith_meets (show (words cs).length < fuel by omega)).ended le_rfl

theorem parseTypeWith_ended {fuel : ℕ} (h : At cs p) (hfuel : p.len - p.pos < fuel) :
    (parseTypeWith byteReader fuel p).1.Ended := by
  have hlen := h.len_eq
  have hcs := length_le_utf8Len cs
  have hws := words_length_le cs
  have hsim := parseTypeWith_rel (Sim.congruence Reads) byteReader_sim.rel (n := 0) .more fuel
  rw [(hsim p (words cs) ⟨cs, h, rfl⟩).1]
  exact (parseTypeWith_meets (show (words cs).length < fuel by omega)).ended le_rfl

end

/-- **The parser terminates on every text.**

* It returns an expression or an error, without a panic.
* The positions where it stands after each look at the text are character boundaries, and none is
  before an earlier one.
* From every boundary, with a level of recursion for each byte left, `parse` and `parse_type` return
  and have taken the parser forward: by a character at least, unless it was at the end. -/
theorem parse_terminates (source : List Char) :
    (parse (.new source)).1.Ended ∧
      ((parseTraced source).1 = (parse (.new source)).1 ∧
        (parseTraced source).2.1 = (parse (.new source)).2 ∧
        (∀ n ∈ (parseTraced source).2.2, IsBoundary source n) ∧
        (parseTraced source).2.2.Pairwise (· ≤ ·)) ∧
      ∀ p : Parser, p.source = source → IsBoundary source p.pos → ∀ fuel, p.len - p.pos < fuel →
        ((parseWith byteReader fuel p).1.Ended ∧ Advances p (parseWith byteReader fuel p).2) ∧
          ((parseTypeWith byteReader fuel p).1.Ended ∧
            Advances p (parseTypeWith byteReader fuel p).2) := by
  refine ⟨parse_ended source, ?_, ?_⟩
  · have hsim := parseWith_sim tracedReader_sim (utf8Len source + 1) (.new source, []) (.new source) rfl
    have hwalk := parseWith_rel (Safe.congruence (Walked source)) (tracedReader_walked source)
      (n := 0) .more .more (utf8Len source + 1) (.new source, [])
      ⟨⟨rfl, ⟨source, .new source⟩, le_rfl⟩, by simp, .nil⟩
    exact ⟨hsim.1, hsim.2, fun n hn => (hwalk.2.2.1 n hn).1, hwalk.2.2.2⟩
  · rintro p rfl ⟨pre, cs, hsrc, hpos⟩ fuel hfuel
    have hat : At cs p := ⟨pre, hsrc, hpos⟩
    obtain ⟨k, rfl⟩ : ∃ k, fuel = k + 1 := ⟨fuel - 1, by omega⟩
    exact ⟨⟨parseWith_ended hat hfuel, parseWith_advances k hat⟩,
      parseTypeWith_ended hat hfuel, parseTypeWith_advances k hat⟩

end Autarky
end AiOsExchange
