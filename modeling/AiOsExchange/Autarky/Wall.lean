/-
# The `@` wall

`autarky_vm/src/parser.rs`.  `skip_whitespace` jumps to the end of the source at an `@`, so that
nothing behind it is part of the program.  `read_word` and the test for a closing parenthesis look
at the raw source; but a word ends before an `@`, and no arrow goes across it.  So the words of a
text do not change when an `@` and anything else is put behind it (`words_wall`), and a parser of
words sees nothing but these.
-/

import AiOsExchange.Autarky.Words

namespace AiOsExchange
namespace Autarky

open Computations

section
variable (t : List Char)

/-- Leading blanks end where they did, or the text is over. -/
theorem dropBlank_wall (s : List Char) : dropBlank (s ++ '@' :: t) =
    if dropBlank s = [] then [] else dropBlank s ++ '@' :: t := by
  induction s with
  | nil =>
      have hblank : isBlank '@' = false := by decide
      simp [dropBlank, hblank]
  | cons c s ih =>
      rw [List.cons_append, dropBlank, dropBlank]
      split_ifs with hblank hat
      · rwa [if_pos ‹_›] at ih
      · rwa [if_neg ‹_›] at ih
      · rfl
      · contradiction
      · contradiction
      · rfl

/-- No arrow goes across the wall. -/
theorem startsWithArrow_wall (c : Char) (s : List Char) :
    startsWithArrow (c :: s ++ '@' :: t) = startsWithArrow (c :: s) := by
  cases s with
  | nil => simp [startsWithArrow, List.isPrefixOf]
  | cons d s => simp [startsWithArrow, List.isPrefixOf]

/-- A word ends at the wall. -/
theorem takeWord_wall (s : List Char) :
    takeWord (s ++ '@' :: t) = ((takeWord s).1, (takeWord s).2 ++ '@' :: t) := by
  induction s with
  | nil =>
      have hend : endsWord ('@' :: t) = true := by simp [endsWord, isDelimiter]
      simp [takeWord, hend]
  | cons c s ih =>
      have hend : endsWord (c :: s ++ '@' :: t) = endsWord (c :: s) := by
        rw [List.cons_append, endsWord, ← List.cons_append, startsWithArrow_wall, endsWord]
      rw [takeWord, List.cons_append, takeWord, ← List.cons_append, hend, ih]
      split_ifs <;> rfl

/-- The next word is the same. -/
theorem nextWord_wall (c : Char) (s : List Char) :
    nextWord (c :: s ++ '@' :: t) = ((nextWord (c :: s)).1, (nextWord (c :: s)).2 ++ '@' :: t) := by
  rw [List.cons_append, nextWord, ← List.cons_append, startsWithArrow_wall, nextWord]
  split_ifs with harrow hdelim
  · obtain ⟨d, r, -, hcs⟩ := eq_of_startsWithArrow harrow
    rw [hcs]
    rfl
  · rfl
  · exact takeWord_wall t (c :: s)

/-- **The words of a text end at the wall.** -/
theorem words_wall (s : List Char) : words (s ++ '@' :: t) = words s := by
  have key (n : ℕ) (s : List Char) : wordsUpTo n (s ++ '@' :: t) = wordsUpTo n s := by
    induction n generalizing s with
    | zero => rfl
    | succ n ih =>
        rw [wordsUpTo, wordsUpTo, dropBlank_wall]
        cases hd : dropBlank s with
        | nil => rfl
        | cons c r =>
            rw [if_neg (List.cons_ne_nil c r)]
            change (nextWord (c :: r ++ '@' :: t)).1 :: wordsUpTo n (nextWord (c :: r ++ '@' :: t)).2 = _
            rw [nextWord_wall, ih]
  rw [words, key, words]
  exact wordsUpTo_congr (by simp) le_rfl

/-- A parser that is over its words takes no more fuel. -/
theorem parseWords_of_le {source source' : List Char} (hwords : words source' = words source)
    (hlen : utf8Len source ≤ utf8Len source') : parseWords source' = parseWords source := by
  obtain ⟨k, hk⟩ := Nat.exists_eq_add_of_le hlen
  have hmore : (parseWords source).1 ≠ .more := by
    have hend := parse_ended source
    rw [(parse_sim source).1] at hend
    exact ((Out.ended_iff _).1 hend).2
  rw [parseWords, hwords, hk, Nat.add_right_comm]
  exact parseWith_le _ k _ hmore

/-- **Nothing behind an `@` is seen.**  The parser ends with the same expression or the same error,
and is at the end of the text or not as it is without. -/
theorem parse_wall (s : List Char) :
    (parse (.new (s ++ '@' :: t))).1 = (parse (.new s)).1 ∧
      (Parser.isEof (parse (.new (s ++ '@' :: t))).2).1 = (Parser.isEof (parse (.new s)).2).1 := by
  have hsame : parseWords (s ++ '@' :: t) = parseWords s :=
    parseWords_of_le (words_wall t s) (by simp)
  obtain ⟨h1, h2⟩ := parse_sim s
  obtain ⟨h1', h2'⟩ := parse_sim (s ++ '@' :: t)
  rw [hsame] at h1' h2'
  have heof := (byteReader_sim.isEof _ _ h2).1
  have heof' := (byteReader_sim.isEof _ _ h2').1
  exact ⟨h1'.trans h1.symm, heof'.trans heof.symm⟩

end

end Autarky
end AiOsExchange
